import PropShear.Path.Basic

/-! Collapsed paths.

A path that has been read is written so that it is read back (`ofText_toText`). Collapsing puts one
name after another on those that are collapsed already. One step keeps their form, the names that
lead up before all others and none of them below a root (`collapsed_addName`), and names of that
form stay as they are (`foldl_collapsed`). So collapsing twice is collapsing once, for paths
(`collapse_collapse`) and for their texts (`collapseText_collapseText`). Text between two slashes
that leads back to where it starts can be left out (`collapseText_between`). -/
namespace PropShear.Path

variable {p : Path} {rooted : Bool} {name s a b : List Char} {names front : List (List Char)}

/-! ### Reading and writing -/

/-- The path is that of a text. -/
structure Readable (p : Path) : Prop where
  root_le : p.root ≤ 2
  isName : ∀ name ∈ p.names, Path.isName name = true
  slash : ∀ name ∈ p.names, '/' ∉ name

theorem ne_nil_of_isName (h : isName name = true) : name ≠ [] := by
  rintro rfl
  cases h

theorem rootOf_replicate {n : Nat} (hn : n ≤ 2) (h : s.head? ≠ some '/') :
    rootOf (List.replicate n '/' ++ s) = n := by
  have hnone : s.takeWhile (· == '/') = [] := by
    cases s with
    | nil => rfl
    | cons c rest => exact List.takeWhile_cons_of_neg (by simpa using h)
  have hslashes : (List.replicate n '/' ++ s).takeWhile (· == '/') = List.replicate n '/' := by
    rw [List.takeWhile_append_of_pos (by simp), hnone, List.append_nil]
  unfold rootOf
  rw [hslashes, List.length_replicate]
  dsimp only
  split
  · omega
  · split <;> omega

/-- The slashes in front are not moved by what comes after another character. -/
theorem rootOf_append (h : ∃ c ∈ a, c ≠ '/') (b : List Char) : rootOf (a ++ b) = rootOf a := by
  obtain ⟨c, hc, hne⟩ := h
  have hshort : ¬ (a.takeWhile (· == '/')).length = a.length := by
    intro hlength
    have hall := (List.takeWhile_prefix (· == '/')).eq_of_length hlength
    rw [← hall] at hc
    exact hne (by simpa using List.all_eq_true.mp List.all_takeWhile c hc)
  unfold rootOf
  rw [List.takeWhile_append, if_neg hshort]

theorem readable_ofText (s : List Char) : (ofText s).Readable where
  root_le := by
    show rootOf s ≤ 2
    unfold rootOf
    dsimp only
    split
    · omega
    · split <;> omega
  isName := fun _ h => (List.mem_filter.mp h).2
  slash := fun _ h => Text.not_mem_of_mem_pieces (List.mem_filter.mp h).1

theorem toText_eq (h : List.replicate p.root '/' ++ Text.joined ['/'] p.names ≠ []) :
    p.toText = List.replicate p.root '/' ++ Text.joined ['/'] p.names := by
  unfold toText
  split
  · next hnil => exact absurd hnil h
  · rfl

theorem toText_ne_nil (p : Path) : p.toText ≠ [] := by
  unfold toText
  split
  · exact List.cons_ne_nil _ _
  · next hne => exact hne

theorem head?_joined (sep : List Char) (h : name ≠ []) (rest : List (List Char)) :
    (Text.joined sep (name :: rest)).head? = name.head? := by
  obtain ⟨c, more, rfl⟩ := List.exists_cons_of_ne_nil h
  cases rest with
  | nil => rfl
  | cons second others => rfl

theorem Readable.head?_joined_ne (h : p.Readable) :
    (Text.joined ['/'] p.names).head? ≠ some '/' := by
  cases hnames : p.names with
  | nil => simp [Text.joined]
  | cons name rest =>
    have hmem : name ∈ p.names := hnames ▸ List.mem_cons_self
    rw [head?_joined ['/'] (ne_nil_of_isName (h.isName name hmem))]
    intro hhead
    exact h.slash name hmem (List.mem_of_mem_head? hhead)

theorem Readable.joined_ne_nil (h : p.Readable) (hne : p.names ≠ []) :
    Text.joined ['/'] p.names ≠ [] := by
  obtain ⟨name, rest, hnames⟩ := List.exists_cons_of_ne_nil hne
  have hname := ne_nil_of_isName (h.isName name (hnames ▸ List.mem_cons_self))
  obtain ⟨c, more, rfl⟩ := List.exists_cons_of_ne_nil hname
  have hhead := head?_joined ['/'] hname rest
  rw [← hnames] at hhead
  intro hnil
  rw [hnil] at hhead
  cases hhead

/-- What is written is read back. -/
theorem ofText_toText (h : p.Readable) : ofText p.toText = p := by
  obtain ⟨root, names⟩ := p
  have hroot : root ≤ 2 := h.root_le
  by_cases hnames : names = []
  · subst hnames
    obtain rfl | rfl | rfl : root = 0 ∨ root = 1 ∨ root = 2 := by omega
    · rfl
    · rfl
    · rfl
  · have hjoined := h.joined_ne_nil hnames
    have hpieces := Text.pieces_joined hnames h.slash
    rw [toText_eq (List.append_ne_nil_of_right_ne_nil _ hjoined), ofText,
      rootOf_replicate hroot h.head?_joined_ne, Text.pieces_replicate, hpieces, List.filter_append,
      List.filter_eq_self.mpr h.isName]
    simp [isName]

/-! ### Collapsing -/

/-- No name leads up. -/
def Straight (names : List (List Char)) : Prop := ['.', '.'] ∉ names

/-- Collapsed names, the last one first: none leads up but the first few, and none below a root. -/
def Collapsed (rooted : Bool) (names : List (List Char)) : Prop :=
  ∃ steps n, names = steps ++ List.replicate n ['.', '.'] ∧ Straight steps ∧
    (rooted = true → n = 0)

theorem addName_step (h : name ≠ ['.', '.']) (names : List (List Char)) :
    addName rooted names name = name :: names := if_pos h

theorem addName_back (h : name ≠ ['.', '.']) (names : List (List Char)) :
    addName rooted (name :: names) ['.', '.'] = names := by
  simp [addName, h]

theorem addName_up (n : Nat) :
    addName false (List.replicate n ['.', '.']) ['.', '.'] = List.replicate (n + 1) ['.', '.'] := by
  cases n with
  | zero => rfl
  | succ n => rfl

theorem collapsed_addName (h : Collapsed rooted names) (name : List Char) :
    Collapsed rooted (addName rooted names name) := by
  obtain ⟨steps, n, rfl, hsteps, hroot⟩ := h
  by_cases hname : name = ['.', '.']
  · subst hname
    cases steps with
    | nil =>
      cases rooted with
      | true =>
        cases hroot rfl
        exact ⟨[], 0, rfl, hsteps, hroot⟩
      | false => exact ⟨[], n + 1, addName_up n, hsteps, by simp⟩
    | cons last rest =>
      rw [Straight, List.mem_cons, not_or] at hsteps
      exact ⟨rest, n, addName_back (Ne.symm hsteps.1) _, hsteps.2, hroot⟩
  · refine ⟨name :: steps, n, addName_step hname _, ?_, hroot⟩
    rw [Straight, List.mem_cons, not_or]
    exact ⟨Ne.symm hname, hsteps⟩

theorem collapsed_foldl (rooted : Bool) (names : List (List Char)) :
    Collapsed rooted (names.foldl (addName rooted) []) := by
  refine List.foldlRecOn names _ ?_ fun front h name _ => collapsed_addName h name
  exact ⟨[], 0, rfl, List.not_mem_nil, fun _ => rfl⟩

/-- Names that do not lead up are put one after another. -/
theorem foldl_straight (h : Straight names) (front : List (List Char)) :
    names.foldl (addName rooted) front = names.reverse ++ front := by
  induction names generalizing front with
  | nil => rfl
  | cons name rest ih =>
    rw [Straight, List.mem_cons, not_or] at h
    rw [List.foldl_cons, addName_step (Ne.symm h.1), ih h.2, List.reverse_cons, List.append_assoc]
    rfl

theorem foldl_up (n k : Nat) :
    (List.replicate n ['.', '.']).foldl (addName false) (List.replicate k ['.', '.']) =
      List.replicate (n + k) ['.', '.'] := by
  induction n generalizing k with
  | zero => rw [Nat.zero_add]; rfl
  | succ n ih =>
    rw [List.replicate_succ, List.foldl_cons, addName_up, ih, Nat.add_right_comm, Nat.add_assoc]

/-- Collapsed names stay as they are. -/
theorem foldl_collapsed (h : Collapsed rooted names) :
    names.reverse.foldl (addName rooted) [] = names := by
  obtain ⟨steps, n, rfl, hsteps, hroot⟩ := h
  have hups : (List.replicate n ['.', '.']).foldl (addName rooted) [] =
      List.replicate n ['.', '.'] := by
    cases rooted with
    | true =>
      cases hroot rfl
      rfl
    | false => exact foldl_up n 0
  have hreverse : Straight steps.reverse := fun hmem => hsteps (List.mem_reverse.mp hmem)
  rw [List.reverse_append, List.reverse_replicate, List.foldl_append, hups, foldl_straight hreverse,
    List.reverse_reverse]

theorem collapse_collapse (p : Path) : p.collapse.collapse = p.collapse := by
  have hnames := foldl_collapsed (collapsed_foldl p.isAbsolute p.names)
  exact congrArg (fun names => Path.mk p.root names.reverse) hnames

theorem collapse_of_straight (h : Straight p.names) : p.collapse = p := by
  rw [collapse, foldl_straight h, List.append_nil, List.reverse_reverse]

theorem straight_collapse (h : p.isAbsolute = true) : Straight p.collapse.names := by
  obtain ⟨steps, n, hnames, hsteps, hroot⟩ := collapsed_foldl p.isAbsolute p.names
  cases hroot h
  rw [List.replicate_zero, List.append_nil] at hnames
  intro hmem
  rw [collapse, hnames] at hmem
  exact hsteps (List.mem_reverse.mp hmem)

theorem mem_addName {n : List Char} (h : n ∈ addName rooted names name) : n = name ∨ n ∈ names := by
  unfold addName at h
  split at h
  · exact List.mem_cons.mp h
  · split at h
    · split at h
      · cases h
      · exact .inl (List.mem_singleton.mp h)
    · split at h
      · exact List.mem_cons.mp h
      · exact .inr (List.mem_cons_of_mem _ h)

/-- Collapsing brings in no new names. -/
theorem mem_of_mem_collapse (h : name ∈ p.collapse.names) : name ∈ p.names := by
  have hsubset : ∀ n ∈ p.names.foldl (addName p.isAbsolute) [], n ∈ p.names := by
    refine List.foldlRecOn (motive := fun front => ∀ n ∈ front, n ∈ p.names) p.names _
      (List.forall_mem_nil _) fun front ih added hadded n hn => ?_
    rcases mem_addName hn with rfl | hn
    · exact hadded
    · exact ih n hn
  exact hsubset name (List.mem_reverse.mp h)

theorem Readable.collapse (h : p.Readable) : p.collapse.Readable where
  root_le := h.root_le
  isName := fun name hname => h.isName name (mem_of_mem_collapse hname)
  slash := fun name hname => h.slash name (mem_of_mem_collapse hname)

/-! ### Texts -/

theorem collapseText_eq (h : s ≠ []) : collapseText s = (ofText s).collapse.toText := by
  cases s with
  | nil => exact absurd rfl h
  | cons c rest => rfl

theorem collapseText_ne_nil (h : s ≠ []) : collapseText s ≠ [] := by
  rw [collapseText_eq h]
  exact toText_ne_nil _

theorem collapseText_collapseText (s : List Char) :
    collapseText (collapseText s) = collapseText s := by
  by_cases hs : s = []
  · rw [hs]
    rfl
  · rw [collapseText_eq (collapseText_ne_nil hs), collapseText_eq hs,
      ofText_toText (readable_ofText s).collapse, collapse_collapse]

/-- Collapsing brings in no new characters but slashes and dots. -/
theorem mem_collapseText {c : Char} (h : c ∈ collapseText s) : c = '/' ∨ c = '.' ∨ c ∈ s := by
  by_cases hs : s = []
  · rw [hs] at h
    cases h
  · rw [collapseText_eq hs] at h
    unfold toText at h
    split at h
    · exact .inr (.inl (List.mem_singleton.mp h))
    · rcases List.mem_append.mp h with hslash | hjoined
      · exact .inl (List.eq_of_mem_replicate hslash)
      · rcases Text.mem_joined hjoined with hslash | ⟨name, hname, hc⟩
        · exact .inl (List.mem_singleton.mp hslash)
        · have hpiece := (List.mem_filter.mp (mem_of_mem_collapse hname)).1
          exact .inr (.inr ((Text.infix_of_mem_pieces hpiece).subset hc))

theorem names_cut (a b : List Char) :
    (ofText (a ++ '/' :: b)).names = (ofText a).names ++ (ofText b).names := by
  unfold ofText
  rw [Text.pieces_cut, List.filter_append]

/-- Text between two slashes that leads back to where it starts makes no difference. -/
theorem collapseText_between {middle : List Char} (ha : ∃ c ∈ a, c ≠ '/') (b : List Char)
    (hmiddle : ∀ rooted front, (ofText middle).names.foldl (addName rooted) front = front) :
    collapseText (a ++ '/' :: (middle ++ '/' :: b)) = collapseText (a ++ '/' :: b) := by
  have hpath : (ofText (a ++ '/' :: (middle ++ '/' :: b))).collapse =
      (ofText (a ++ '/' :: b)).collapse := by
    have hroot : ∀ rest, (ofText (a ++ rest)).root = rootOf a := rootOf_append ha
    unfold collapse isAbsolute
    rw [hroot, hroot, names_cut, names_cut, names_cut]
    simp only [List.foldl_append, hmiddle]
  rw [collapseText_eq (by simp), collapseText_eq (by simp), hpath]

end PropShear.Path
