import WowmaxStellar.Soroban.Value

/-!
# Plans

The two plan languages of the executor: `swap` takes strands of hops, `swap_merge`
takes stages of fills. Plans are untrusted: every field is whatever the caller wrote.
-/

namespace WowmaxStellar

/-- One edge of a route. `venue`: 0 = Soroswap, 1 = Aquarius, 2 = Phoenix; the fields
of the other venues are placeholders. -/
structure Hop where
  venue : UInt32
  pool : Address
  tokenIn : Address
  tokenOut : Address
  aquaRouter : Address
  aquaPoolTokens : Vec Address
  aquaPoolIndex : BytesN32
  soroswapRouter : Address
  soroswapPath : Vec Address
deriving DecidableEq

/-- One parallel branch of `swap`: its share of the input and its hops. -/
structure Strand where
  parts : UInt32
  hops : Vec Hop
deriving DecidableEq

/-- One edge out of a stage of `swap_merge`; its input token is the stage's. -/
structure Fill where
  venue : UInt32
  pool : Address
  tokenOut : Address
  parts : UInt32
  aquaRouter : Address
  aquaPoolTokens : Vec Address
  aquaPoolIndex : BytesN32
  soroswapRouter : Address
  soroswapPath : Vec Address
deriving DecidableEq

/-- A stage splits everything the call holds of `token` over its fills. -/
structure Stage where
  token : Address
  fills : Vec Fill
deriving DecidableEq

/-- The edge a fill of a stage on `token` describes. -/
def Fill.toHop (token : Address) (fill : Fill) : Hop where
  venue := fill.venue
  pool := fill.pool
  tokenIn := token
  tokenOut := fill.tokenOut
  aquaRouter := fill.aquaRouter
  aquaPoolTokens := fill.aquaPoolTokens
  aquaPoolIndex := fill.aquaPoolIndex
  soroswapRouter := fill.soroswapRouter
  soroswapPath := fill.soroswapPath

/-- A fill with the venue fields of a hop. -/
def Hop.toFill (parts : UInt32) (hop : Hop) : Fill where
  venue := hop.venue
  pool := hop.pool
  tokenOut := hop.tokenOut
  parts := parts
  aquaRouter := hop.aquaRouter
  aquaPoolTokens := hop.aquaPoolTokens
  aquaPoolIndex := hop.aquaPoolIndex
  soroswapRouter := hop.soroswapRouter
  soroswapPath := hop.soroswapPath

@[simp] theorem Hop.toHop_toFill (parts : UInt32) (hop : Hop) :
    (hop.toFill parts).toHop hop.tokenIn = hop := rfl

@[simp] theorem Fill.toHop_tokenIn (token : Address) (fill : Fill) :
    (fill.toHop token).tokenIn = token := rfl

@[simp] theorem Fill.toHop_tokenOut (token : Address) (fill : Fill) :
    (fill.toHop token).tokenOut = fill.tokenOut := rfl

/-- The edges of a stage, in the order in which they run. -/
def Stage.edges (stage : Stage) : List Hop :=
  stage.fills.val.map (Fill.toHop stage.token)

/-- The edges of a stage list, in the order in which they run. -/
def mergeEdges (stages : List Stage) : List Hop :=
  stages.flatMap Stage.edges

/-- The edges of a strand list, in the order in which they run. -/
def swapEdges (plan : List Strand) : List Hop :=
  plan.flatMap fun strand => strand.hops.val

/-- The address a venue pulls the input to: the pool for Soroswap and Phoenix, the
router for Aquarius. -/
def Hop.pullTarget (hop : Hop) : Address :=
  if hop.venue = 1 then hop.aquaRouter else hop.pool

end WowmaxStellar
