/-! Runs that may fail: what a successful run has done. -/

namespace ImportLedger

theorem mapError_ok {ε δ α : Type} (f : ε → δ) (a : α) :
    (Except.ok a : Except ε α).mapError f = .ok a := rfl

theorem ok_of_mapError {ε δ α : Type} {f : ε → δ} {e : Except ε α} {a : α}
    (h : e.mapError f = .ok a) : e = .ok a := by
  cases e with
  | error _ => exact nomatch h
  | ok b =>
    rw [mapError_ok] at h
    exact congrArg Except.ok (Except.ok.inj h)

theorem ok_of_toOption {ε α : Type} {e : Except ε α} {a : α} (h : e.toOption = some a) :
    e = .ok a := by
  cases e with
  | error _ => simp [Except.toOption] at h
  | ok b => simpa [Except.toOption] using h

theorem toOption_bind {ε α β : Type} (e : Except ε α) (f : α → Except ε β) :
    (e >>= f).toOption = e.toOption.bind fun a => (f a).toOption := by
  cases e <;> rfl

theorem ok_of_bind {ε α β : Type} {e : Except ε α} {f : α → Except ε β} {b : β}
    (h : e >>= f = .ok b) : ∃ a, e = .ok a ∧ f a = .ok b := by
  cases e with
  | error _ => simp [bind, Except.bind] at h
  | ok a => exact ⟨a, rfl, h⟩

theorem error_of_bind {ε α β : Type} {e : Except ε α} {f : α → Except ε β} {x : ε}
    (h : e >>= f = .error x) : e = .error x ∨ ∃ a, e = .ok a ∧ f a = .error x := by
  cases e with
  | error y => exact .inl (congrArg Except.error (Except.error.inj h))
  | ok a => exact .inr ⟨a, rfl, h⟩

theorem error_of_mapError {ε δ α : Type} {f : ε → δ} {e : Except ε α} {x : δ}
    (h : e.mapError f = .error x) : ∃ y, e = .error y ∧ f y = x := by
  cases e with
  | error y => exact ⟨y, rfl, Except.error.inj h⟩
  | ok a => exact nomatch h

theorem ok_of_map {ε α β : Type} {e : Except ε α} {f : α → β} {b : β} (h : e.map f = .ok b) :
    ∃ a, e = .ok a ∧ f a = b := by
  cases e with
  | error _ => exact nomatch h
  | ok a => exact ⟨a, rfl, Except.ok.inj h⟩

theorem forM_ok_iff {ε α : Type} {f : α → Except ε Unit} {l : List α} :
    l.forM f = .ok () ↔ ∀ a ∈ l, f a = .ok () := by
  induction l with
  | nil => exact ⟨fun _ _ h => (List.not_mem_nil h).elim, fun _ => rfl⟩
  | cons a l ih =>
    constructor
    · intro h
      obtain ⟨_, ha, hl⟩ := ok_of_bind h
      intro b hb
      rcases List.mem_cons.mp hb with rfl | hb
      · exact ha
      · exact ih.mp hl b hb
    · intro h
      have ha : f a = .ok () := h a (by simp)
      have hl : l.forM f = .ok () := ih.mpr fun b hb => h b (by simp [hb])
      change (f a >>= fun _ => l.forM f) = .ok ()
      rw [ha]
      exact hl

end ImportLedger
