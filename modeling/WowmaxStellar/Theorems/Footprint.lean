import WowmaxStellar.Logic.Accesses

/-!
# The footprint of a call is known beforehand

A transaction declares what it will touch before it runs. For the executor that can be read off
the arguments: no reply of a venue, no amount and no balance decides what is touched next, only
whether the call goes on.

* `footprint_static` — the result, for all six entry points.
-/

namespace WowmaxStellar

variable {V : Type}

/-- **The footprint of a call is known beforehand.** Whatever the venues and the ledger answer,
the host calls of an invocation are, apart from the amounts, the ones its arguments name, in
this order: all of them when it returns, the first ones of them when it panics. -/
theorem footprint_static (env : Env V) (call : EntryCall) (world : World V) :
    (∀ out, (call.invoke env world).result = .ok out →
      (call.invoke env world).trace.map Event.access = call.accesses env) ∧
    (call.invoke env world).trace.map Event.access <+: call.accesses env := by
  have hemits : Runs.Emits State.accesses (call.run env) (call.accesses env) := call.emits
  cases hrun : call.run env world.start with
  | ok out s =>
      have htrace : s.accesses = call.accesses env := hemits.ok hrun
      rw [EntryCall.invoke_of_ok hrun]
      refine ⟨fun _ _ => htrace, ?_⟩
      show s.accesses <+: _
      exact htrace ▸ List.prefix_rfl
  | error panic s =>
      obtain ⟨part, hpart, htrace⟩ := hemits.error hrun
      rw [EntryCall.invoke_of_error hrun]
      refine ⟨fun out hresult => absurd hresult (by simp), ?_⟩
      show s.accesses <+: _
      rw [htrace]
      exact hpart

end WowmaxStellar
