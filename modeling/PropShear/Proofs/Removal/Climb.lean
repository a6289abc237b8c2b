import PropShear.Proofs.Removal.Declarators

/-! The climb from a require and the search below a declarator.

The bytes of a declarator are chosen by two walks of the tree. One climbs from the require to the
declarator around it, the other searches every declarator of the declaration for requires; they stop
at containers of statements, but by rules of their own. A declarator that a climb stops at is found
by the search, so the index of the declarator exists and so does the declarator after it whenever
its start is needed. Where no declarator stands below another one, the two walks find the same
(`ofDeclarator?_defined`). -/
namespace PropShear

variable {source : List Char} {modules : List Specifier} {root : Node} {p q d e : Place}
  {start stop : Nat}

namespace Extent

/-- The search finds a tracked require below the declarator. -/
def Held (source : List Char) (modules : List Specifier) (d : Place) : Prop :=
  holdsRequire source modules d.node = .ok true

/-- Only which declarators of the list go matters. -/
theorem Cut.congr {gone gone' : Place → Prop} {ds : List Place}
    (h : ∀ e ∈ ds, gone e ↔ gone' e) (cut : Cut gone ds d start stop) :
    Cut gone' ds d start stop := by
  cases cut with
  | gapBefore hbefore hd stays =>
    obtain ⟨e, he, hstays⟩ := stays
    exact .gapBefore hbefore hd ⟨e, he, mt (h e (List.mem_of_mem_take he)).mpr hstays⟩
  | gapAfter hd hafter leading =>
    exact .gapAfter hd hafter fun e he => (h e (List.mem_of_mem_take he)).mp (leading e he)

theorem doomed_iff_held (wf : root.WellFormed source) (hq : (Place.root root).Within q)
    (he : e ∈ q.declarators) : e.Doomed source modules ↔ Held source modules e :=
  doomed_iff_holdsRequire ((hq.child (mem_declarators.mp he).1).wellFormed wf)

/-- A declarator that a climb stops at is found by the search. -/
theorem held_of_climb? (wf : root.WellFormed source) (hp : (Place.root root).Within p)
    (h : p.node.Requires source modules) (hclimb : climb? p = some d) :
    Held source modules d := by
  obtain ⟨q, hq, -, hd, hr⟩ := Removal.climb?_of_requires wf.tiled hp h hclimb
  exact (doomed_iff_held wf hq hd).mp ⟨p, hr, h⟩

/-- What a climb from a require gives, unless it meets no declarator: a declarator of a declaration,
found by its start, that takes one gap with it if its declaration keeps another one. -/
theorem ofDeclarator?_of_climb? (wf : root.WellFormed source) (hp : (Place.root root).Within p)
    (h : p.node.Requires source modules) (hclimb : climb? p = some d) :
    ∃ q i, (Place.root root).Within q ∧ q.node.kind.isDeclaration = true ∧
      q.declarators[i]? = some d ∧
      (q.declarators.map Place.node).findIdx? (·.start == d.node.start) = some i ∧
      ((∀ e ∈ q.declarators, Held source modules e) ∧ ofDeclarator? source modules p = .ok none ∨
        (∃ e ∈ q.declarators, ¬ Held source modules e) ∧
          ∃ start stop, Cut (Held source modules) q.declarators d start stop ∧
            ofDeclarator? source modules p = .ok (some (start, stop))) := by
  obtain ⟨q, hq, hdecl, hd, hr⟩ := Removal.climb?_of_requires wf.tiled hp h hclimb
  have wfq : q.node.WellFormed source := hq.wellFormed wf
  have hheld : ∀ e ∈ q.declarators, e.Doomed source modules ↔ Held source modules e :=
    fun e he => doomed_iff_held wf hq he
  obtain ⟨i, hi⟩ := List.getElem?_of_mem hd
  refine ⟨q, i, hq, hdecl, hi, findIdx?_declarators wfq.tiled hi, ?_⟩
  rcases ofDeclarator?_cases wfq.tiled hd ⟨p, hr, h⟩
    (declarator?_of_climb? (mem_declarators.mp hd).1 hclimb) with
    ⟨hall, hspan⟩ | ⟨⟨e, he, hstays⟩, start, stop, hcut, hspan⟩ | ⟨e, -, hlarge⟩
  · exact .inl ⟨fun e he => (hheld e he).mp (hall e he), hspan⟩
  · exact .inr ⟨⟨e, he, mt (hheld e he).mpr hstays⟩, start, stop, hcut.congr hheld, hspan⟩
  · exact absurd hlarge.2 wfq.not_overflows

/-- Every tracked require has its bytes chosen: its climb meets no declarator, or one that is found
among the declarators of its declaration and takes a gap to a declarator that exists, unless none
stays. In a flat tree the search finds a require below a declarator exactly if the climb from one
stops there. -/
theorem ofDeclarator?_defined (source : List Char) (modules : List Specifier) (root : Node)
    (wf : root.WellFormed source) :
    (∀ p ∈ root.places, p.node.Requires source modules →
      climb? p = none ∧ ofDeclarator? source modules p = .ok none ∨
        ∃ d, climb? p = some d ∧ ∃ q ∈ root.places, q.node.kind.isDeclaration = true ∧
          ∃ i, q.declarators[i]? = some d ∧
          (q.declarators.map Place.node).findIdx? (·.start == d.node.start) = some i ∧
          ((∀ e ∈ q.declarators, Held source modules e) ∧
              ofDeclarator? source modules p = .ok none ∨
            (∃ e ∈ q.declarators, ¬ Held source modules e) ∧
              ∃ start stop, Cut (Held source modules) q.declarators d start stop ∧
                ofDeclarator? source modules p = .ok (some (start, stop)))) ∧
      (root.Flat → ∀ q ∈ root.places, q.node.kind.isDeclaration = true → ∀ d ∈ q.declarators,
        (Held source modules d ↔
          ∃ p ∈ root.places, p.node.Requires source modules ∧ climb? p = some d)) := by
  constructor
  · intro p hp h
    rw [Node.mem_places] at hp
    cases hclimb : climb? p with
    | none =>
      have hnone : declarator? p = none := by rw [declarator?_eq, hclimb]; rfl
      exact .inl ⟨rfl, Removal.ofDeclarator?_none hnone⟩
    | some d =>
      obtain ⟨q, i, hq, hdecl, hspan⟩ := ofDeclarator?_of_climb? wf hp h hclimb
      exact .inr ⟨d, rfl, q, Node.mem_places.mpr hq, hdecl, i, hspan⟩
  · intro flat q hq hdecl d hd
    rw [Node.mem_places] at hq
    constructor
    · intro hheld
      obtain ⟨p, hr, hp⟩ := (doomed_iff_held wf hq hd).mpr hheld
      refine ⟨p, Node.mem_places.mpr ?_, hp, ?_⟩
      · exact (hq.child (mem_declarators.mp hd).1).trans hr.within
      · exact climb?_of_reaches wf flat hq hdecl hd hr hp.children_ne_nil
    · rintro ⟨p, hp, hrequires, hclimb⟩
      exact held_of_climb? wf (Node.mem_places.mp hp) hrequires hclimb

theorem ofDeclarator?_defined_sample :
    ∃ p ∈ Node.sample.places, p.node.Requires Node.sampleText.toList ["π"] ∧
      ∃ d q : Place, climb? p = some d ∧ Held Node.sampleText.toList ["π"] d ∧
        Cut (Held Node.sampleText.toList ["π"]) q.declarators d 6 25 ∧
        ofDeclarator? Node.sampleText.toList ["π"] p = .ok (some (6, 25)) := by
  obtain ⟨p, hp⟩ : ∃ p, Node.sample.places[9]? = some p := ⟨_, rfl⟩
  have hmem := List.mem_of_getElem? hp
  have hrequires : p.node.Requires Node.sampleText.toList ["π"] := ⟨"π", by cases hp; rfl⟩
  have hspan : ofDeclarator? Node.sampleText.toList ["π"] p = .ok (some (6, 25)) := by
    cases hp
    rfl
  obtain ⟨hspans, hsearch⟩ := ofDeclarator?_defined Node.sampleText.toList ["π"] Node.sample
    Node.sample_wellFormed
  have hone := hspans p hmem hrequires
  rw [hspan] at hone
  rcases hone with ⟨-, hnone⟩ | ⟨d, hclimb, q, hq, hdecl, i, hi, -, ⟨-, hnone⟩ |
    ⟨-, start, stop, hcut, hsome⟩⟩
  · cases hnone
  · cases hnone
  · cases hsome
    have hheld := (hsearch (Node.flat_of_forall (by decide)) q hq hdecl d
      (List.mem_of_getElem? hi)).mpr ⟨p, hmem, hrequires, hclimb⟩
    exact ⟨p, hmem, hrequires, d, q, hclimb, hheld, hcut, hspan⟩

end Extent
end PropShear
