import PropShear.Proofs.Edit.Canonical

/-! Sequences of calls of an editor.

A call notes offsets of the text and does nothing else, or fails and does nothing at all
(`run_cases`). So after calls that all succeed the editor holds the offsets that were marked and the
spans that were deleted, no more and no less (`calls_records`). -/
namespace PropShear

namespace Editor

inductive Call where
  | delete (start stop : Int)
  | mark (offset : Int)
deriving DecidableEq, Repr

def Call.run : Call → Edit Unit
  | delete start stop => Editor.delete start stop
  | mark offset => Editor.mark offset

/-- The editor of a text after calls, if all of them succeed. -/
def calls (text : List Char) (cs : List Call) : Except Error Editor :=
  after (cs.forM Call.run) (.ofText text)

/-- The call names offsets of a text of the given size, the ends of a span in order. -/
def Call.Accepted (size : Nat) : Call → Prop
  | delete start stop =>
    (0 ≤ start ∧ start ≤ size) ∧ (0 ≤ stop ∧ stop ≤ size) ∧ start ≤ stop
  | mark offset => 0 ≤ offset ∧ offset ≤ size

instance (size : Nat) : (c : Call) → Decidable (c.Accepted size)
  | .delete start stop => inferInstanceAs
    (Decidable ((0 ≤ start ∧ start ≤ size) ∧ (0 ≤ stop ∧ stop ≤ size) ∧ start ≤ stop))
  | .mark offset => inferInstanceAs (Decidable (0 ≤ offset ∧ offset ≤ size))

/-! ### One call -/

variable {e e' : Editor} {c : Call}

theorem accept_cases (offset : Int) (e : Editor) :
    (∃ k : Nat, offset = k ∧ k ≤ e.size) ∨
      ¬ (0 ≤ offset ∧ offset ≤ e.size) ∧
        ∃ err, (accept offset).run e = (.error err, e) := by
  by_cases h : 0 ≤ offset ∧ offset ≤ e.size
  · obtain ⟨k, rfl⟩ := Int.eq_ofNat_of_zero_le h.1
    exact .inl ⟨k, rfl, by omega⟩
  · exact .inr ⟨h, _, by rw [run_accept, if_neg h]⟩

theorem mark_cases (offset : Int) (e : Editor) :
    (∃ k : Nat, offset = k ∧ k ≤ e.size ∧ (mark offset).run e = (.ok (), e.addMark k)) ∨
      ¬ (Call.mark offset).Accepted e.size ∧ ∃ err, (mark offset).run e = (.error err, e) := by
  rcases accept_cases offset e with ⟨k, rfl, hk⟩ | ⟨hout, err, herr⟩
  · exact .inl ⟨k, rfl, hk, run_mark hk⟩
  · exact .inr ⟨hout, err, run_bind_error herr⟩

theorem delete_cases (start stop : Int) (e : Editor) :
    (∃ i k : Nat, start = i ∧ stop = k ∧ i ≤ k ∧ k ≤ e.size ∧
        (delete start stop).run e = (.ok (), e.addSpan ⟨i, k⟩)) ∨
      ¬ (Call.delete start stop).Accepted e.size ∧
        ∃ err, (delete start stop).run e = (.error err, e) := by
  rcases accept_cases start e with ⟨i, rfl, hi⟩ | ⟨hout, err, herr⟩
  · rcases accept_cases stop e with ⟨k, rfl, hk⟩ | ⟨hout, err, herr⟩
    · by_cases hik : i ≤ k
      · exact .inl ⟨i, k, rfl, rfl, hik, hk, run_delete hik hk⟩
      · refine .inr ⟨fun h => hik (Int.ofNat_le.mp h.2.2), .reversed i k, ?_⟩
        unfold delete
        rw [run_bind_ok (run_accept_nat hi), run_bind_ok (run_accept_nat hk),
          if_pos (Nat.not_le.mp hik)]
        rfl
    · refine .inr ⟨fun h => hout h.2.1, err, ?_⟩
      exact (run_bind_ok (run_accept_nat hi)).trans (run_bind_error herr)
  · exact .inr ⟨fun h => hout h.1, err, run_bind_error herr⟩

/-- What a call can do. -/
theorem run_cases (c : Call) (e : Editor) :
    (∃ k : Nat, c = .mark k ∧ k ≤ e.size ∧ c.run.run e = (.ok (), e.addMark k)) ∨
      (∃ i k : Nat, c = .delete i k ∧ i ≤ k ∧ k ≤ e.size ∧
        c.run.run e = (.ok (), e.addSpan ⟨i, k⟩)) ∨
      ¬ c.Accepted e.size ∧ ∃ err, c.run.run e = (.error err, e) := by
  cases c with
  | mark offset =>
    rcases mark_cases offset e with ⟨k, rfl, hk⟩ | hfails
    · exact .inl ⟨k, rfl, hk⟩
    · exact .inr (.inr hfails)
  | delete start stop =>
    rcases delete_cases start stop e with ⟨i, k, rfl, rfl, hk⟩ | hfails
    · exact .inr (.inl ⟨i, k, rfl, hk⟩)
    · exact .inr (.inr hfails)

/-! ### All calls -/

/-- The editor of a text holds what calls have noted. -/
structure Records (text : List Char) (cs : List Call) (e : Editor) : Prop where
  sameText : e.text = text
  marks : ∀ k : Nat, k ∈ e.marks ↔ .mark k ∈ cs
  deleted : ∀ s : Span, s ∈ e.deleted ↔ s.start < s.stop ∧ .delete s.start s.stop ∈ cs
  inside : ∀ k : Nat, k ∈ e.marks → k ≤ text.length

theorem records_nil (text : List Char) : Records text [] (.ofText text) where
  sameText := rfl
  marks k := by simp [ofText]
  deleted s := by simp [ofText]
  inside k hk := by cases hk

variable {text : List Char} {cs : List Call}

theorem Records.size_eq (records : Records text cs e) : e.size = text.length :=
  congrArg List.length records.sameText

theorem Records.addMark (records : Records text cs e) {k : Nat} (hk : k ≤ e.size) :
    Records text (cs ++ [.mark k]) (e.addMark k) := by
  refine ⟨records.sameText, fun j => ?_, fun s => ?_, fun j hj => ?_⟩
  · simp only [Editor.addMark, List.mem_append, records.marks, List.mem_singleton,
      Call.mark.injEq, Int.natCast_inj]
  · simp [Editor.addMark, records.deleted]
  · rcases List.mem_append.mp hj with hj | hj
    · exact records.inside j hj
    · rw [List.mem_singleton.mp hj, ← records.size_eq]
      exact hk

theorem Records.addSpan (records : Records text cs e) {i k : Nat} (hk : k ≤ e.size) :
    Records text (cs ++ [.delete i k]) (e.addSpan ⟨i, k⟩) := by
  refine ⟨?_, fun j => ?_, fun s => ?_, ?_⟩
  · rw [text_addSpan, records.sameText]
  · simp [records.marks]
  · rw [deleted_addSpan hk]
    simp only [List.mem_append, records.deleted, List.mem_filter, List.mem_singleton,
      Call.delete.injEq, decide_eq_true_eq]
    cases s
    simp only [Span.mk.injEq, Int.natCast_inj]
    constructor
    · rintro (h | ⟨⟨rfl, rfl⟩, hlt⟩)
      · exact ⟨h.1, .inl h.2⟩
      · exact ⟨hlt, .inr ⟨rfl, rfl⟩⟩
    · rintro ⟨hne, h | hends⟩
      · exact .inl ⟨hne, h⟩
      · exact .inr ⟨hends, hne⟩
  · rw [marks_addSpan]
    exact records.inside

theorem Records.run (records : Records text cs e) (h : after c.run e = .ok e') :
    Records text (cs ++ [c]) e' := by
  rcases run_cases c e with ⟨k, rfl, hk, hrun⟩ | ⟨i, k, rfl, -, hk, hrun⟩ | ⟨-, err, hrun⟩
  · rw [after_of_ok hrun] at h
    cases h
    exact records.addMark hk
  · rw [after_of_ok hrun] at h
    cases h
    exact records.addSpan hk
  · rw [after_of_error hrun] at h
    cases h

theorem Records.forM {past : List Call} (records : Records text past e) (cs : List Call)
    (h : after (cs.forM Call.run) e = .ok e') : Records text (past ++ cs) e' := by
  induction cs generalizing e past with
  | nil =>
    cases h
    rw [List.append_nil]
    exact records
  | cons c rest ih =>
    rw [after_cons] at h
    obtain ⟨e₁, hrun, hrest⟩ := bind_eq_ok h
    have := ih (records.run hrun) hrest
    rwa [List.append_assoc] at this

theorem calls_records (h : calls text cs = .ok e) : Records text cs e :=
  (records_nil text).forM cs h

end Editor
end PropShear
