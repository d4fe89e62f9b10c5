/-!
# Readers that succeed

The readers of wire formats check one thing after the other and refuse at the first fault. A reader
that succeeds has therefore passed every check: the lemmas here turn *the reader gives `a`* into the
list of what it has found, so that no proof has to follow the refusals.
-/

namespace PeerCluster.Reading

variable {ε α β : Type}

theorem bind_eq_ok_iff {x : Except ε α} {f : α → Except ε β} {b : β} :
    x >>= f = .ok b ↔ ∃ a, x = .ok a ∧ f a = .ok b := by
  cases x with
  | error e => simp [bind, Except.bind]
  | ok a => simp [bind, Except.bind]

theorem pure_eq_ok_iff {a b : α} : (pure a : Except ε α) = .ok b ↔ a = b := by
  simp [pure, Except.pure]

theorem throw_ne_ok {e : ε} {a : α} : (throw e : Except ε α) ≠ .ok a := by
  simp [throw, throwThe, MonadExceptOf.throw]

/-- A check that refuses is passed exactly if it does not apply. -/
theorem check_eq_ok_iff {c : Prop} [Decidable c] {e : ε} {next : PUnit → Except ε α} {a : α} :
    (if c then throw e >>= next else next ()) = .ok a ↔ ¬ c ∧ next () = .ok a := by
  by_cases hc : c
  · simp [hc, bind, Except.bind, throw, throwThe, MonadExceptOf.throw]
  · simp [hc]

end PeerCluster.Reading
