import PropShear.Version

/-! Versions are compared by their numbers.

A version can be written in many ways (`Spelling`): with blanks around it, letters `v` in front, one
to three numbers, and more text behind the third. However it is written, its numbers are read
(`ofText_spelled`), so the check of a host compares them from left to right, as numbers and not as
text (`check_compares`). -/
namespace PropShear

/-! ### Trimming -/

namespace Text

/-- Text is trimmed behind its last character that is not dropped. -/
theorem dropRightWhile_append {p : Char → Bool} {a b : List Char} {c : Char}
    (hc : a.getLast? = some c) (hp : p c = false) :
    dropRightWhile p (a ++ b) = a ++ dropRightWhile p b := by
  obtain ⟨front, rfl⟩ := List.getLast?_eq_some_iff.mp hc
  have hfront : (front ++ [c]).reverse.dropWhile p = (front ++ [c]).reverse := by
    rw [List.reverse_append, List.reverse_singleton, List.singleton_append,
      List.dropWhile_cons_of_neg (by simp [hp])]
  rw [dropRightWhile, dropRightWhile, List.reverse_append, List.dropWhile_append, hfront]
  by_cases hempty : (b.reverse.dropWhile p).isEmpty
  · rw [if_pos hempty, List.isEmpty_iff.mp hempty]
    simp
  · rw [if_neg hempty, List.reverse_append, List.reverse_reverse]

theorem dropRightWhile_prefix (p : Char → Bool) (s : List Char) : dropRightWhile p s <+: s := by
  rw [dropRightWhile, ← List.reverse_suffix, List.reverse_reverse]
  exact List.dropWhile_suffix p

theorem dropRightWhile_of_forall {p : Char → Bool} {s : List Char} (h : ∀ c ∈ s, p c = true) :
    dropRightWhile p s = [] := by
  have hall : (s.reverse ++ []).dropWhile p = [] :=
    List.dropWhile_append_of_pos fun c hc => h c (List.mem_reverse.mp hc)
  rw [List.append_nil] at hall
  rw [dropRightWhile, hall]
  rfl

theorem head?_of_prefix {a b : List Char} {c : Char} (h : a <+: b) (hc : a.head? = some c) :
    b.head? = some c := by
  obtain ⟨tail, rfl⟩ := h
  rw [List.head?_append, hc]
  rfl

theorem dropWhile_of_head {p : Char → Bool} {s : List Char}
    (h : ∀ c, s.head? = some c → p c = false) : s.dropWhile p = s := by
  cases s with
  | nil => rfl
  | cons c rest => rw [List.dropWhile_cons_of_neg (by simp [h c rfl])]

/-- Text without the separator goes to the first piece. -/
theorem pieces_extend {sep : Char} {a : List Char} (h : sep ∉ a) (s : List Char) :
    ∃ piece more, piece <+: s ∧ pieces sep (a ++ s) = (a ++ piece) :: more := by
  obtain ⟨piece, more, hs⟩ := List.exists_cons_of_ne_nil (pieces_ne_nil sep s)
  refine ⟨piece, more, head_pieces_prefix hs, ?_⟩
  induction a with
  | nil => exact hs
  | cons c rest ih =>
    rw [List.mem_cons, not_or] at h
    rw [List.cons_append, pieces, if_neg (Ne.symm h.1), ih h.2]
    rfl

/-! ### Digits -/

theorem toNat_of_isDigit {c : Char} (h : c.isDigit = true) : 48 ≤ c.toNat ∧ c.toNat ≤ 57 := by
  simpa [Char.isDigit, UInt32.le_iff_toNat_le] using h

theorem decimalValue?_of_isDigit {c : Char} (h : c.isDigit = true) :
    decimalValue? c = some (c.toNat - 48) := by
  obtain ⟨hleast, hmost⟩ := toNat_of_isDigit h
  obtain ⟨others, hzeros⟩ : ∃ others, decimalZeros = 48 :: others := ⟨_, rfl⟩
  rw [decimalValue?, hzeros, List.find?_cons_of_pos]
  · rfl
  · simp only [Bool.and_eq_true, decide_eq_true_eq]
    omega

theorem isDecimal_of_isDigit {c : Char} (h : c.isDigit = true) : isDecimal c = true := by
  rw [isDecimal, decimalValue?_of_isDigit h]
  rfl

theorem isBlank_of_isDigit {c : Char} (h : c.isDigit = true) : isBlank c = false := by
  obtain ⟨hleast, hmost⟩ := toNat_of_isDigit h
  simp only [isBlank, Bool.or_eq_false_iff, Bool.and_eq_false_iff, decide_eq_false_iff_not,
    beq_eq_false_iff_ne]
  omega

theorem ne_of_isDigit {c d : Char} (h : c.isDigit = true) (hd : d.isDigit = false) : c ≠ d := by
  intro heq
  rw [heq, hd] at h
  cases h

theorem isDigit_of_mem_toDigits {n : Nat} {c : Char} (h : c ∈ Nat.toDigits 10 n) :
    c.isDigit = true :=
  Nat.isDigit_of_mem_toDigits (by decide) (by decide) h

end Text

namespace Version

/-- The digits of a number are read as that number. -/
theorem readNumber_toDigits {n : Nat} (h : (Nat.toDigits 10 n).length ≤ Text.digitLimit) :
    readNumber (Nat.toDigits 10 n) = .ok n := by
  have hvalue : (Nat.toDigits 10 n).foldl (fun n c => n * 10 + (Text.decimalValue? c).getD 0) 0 =
      Nat.ofDigitChars 10 (Nat.toDigits 10 n) 0 := by
    apply List.foldl_rel (r := Eq) rfl
    rintro c hc m _ rfl
    rw [Text.decimalValue?_of_isDigit (Text.isDigit_of_mem_toDigits hc), Nat.mul_comm]
    rfl
  rw [readNumber, if_neg (Nat.not_lt.mpr h), hvalue, Nat.ofDigitChars_ten_toDigits]

/-- A piece is read as its number and what follows in the piece does not count. -/
theorem readPieces_cons {n : Nat} {rest : List Char} {more : List (List Char)} {numbers : List Nat}
    (hshort : (Nat.toDigits 10 n).length ≤ Text.digitLimit)
    (hrest : ∀ c, rest.head? = some c → Text.isDecimal c = false)
    (hmore : readPieces more = .ok numbers) :
    readPieces ((Nat.toDigits 10 n ++ rest) :: more) = .ok (n :: numbers) := by
  have hdigits : (Nat.toDigits 10 n ++ rest).takeWhile Text.isDecimal = Nat.toDigits 10 n := by
    rw [List.takeWhile_append_of_pos fun c hc =>
      Text.isDecimal_of_isDigit (Text.isDigit_of_mem_toDigits hc)]
    cases rest with
    | nil => simp
    | cons c tail => rw [List.takeWhile_cons_of_neg (by simp [hrest c rfl]), List.append_nil]
  have hne : (Nat.toDigits 10 n).isEmpty = false := by
    rw [List.isEmpty_eq_false_iff]
    exact Nat.toDigits_ne_nil
  rw [readPieces, hdigits]
  simp only [hne, readNumber_toDigits hshort, hmore]
  rfl

theorem point_not_mem_toDigits (n : Nat) : '.' ∉ Nat.toDigits 10 n :=
  fun hmem => Text.ne_of_isDigit (Text.isDigit_of_mem_toDigits hmem) rfl rfl

/-! ### Numbers with points between them -/

/-- Numbers with points between them. -/
def numerals (numbers : List Nat) : List Char :=
  Text.joined ['.'] (numbers.map (Nat.toDigits 10))

theorem numerals_cons (n : Nat) {more : List Nat} (h : more ≠ []) :
    numerals (n :: more) = Nat.toDigits 10 n ++ '.' :: numerals more := by
  rw [numerals, List.map_cons, Text.joined_cons (by simpa using h), List.append_assoc]
  rfl

/-- Numbers begin with a digit. -/
theorem head?_numerals {numbers : List Nat} (h : numbers ≠ []) :
    ∃ c, (numerals numbers).head? = some c ∧ c.isDigit = true := by
  obtain ⟨n, more, rfl⟩ := List.exists_cons_of_ne_nil h
  obtain ⟨c, tail, hdigits⟩ := List.exists_cons_of_ne_nil (Nat.toDigits_ne_nil (n := n) (b := 10))
  have hdigit : c.isDigit = true := by
    apply Text.isDigit_of_mem_toDigits (n := n)
    rw [hdigits]
    exact List.mem_cons_self
  refine ⟨c, ?_, hdigit⟩
  by_cases hmore : more = []
  · subst hmore
    rw [numerals, List.map_singleton, Text.joined, hdigits]
    rfl
  · rw [numerals_cons n hmore, hdigits]
    rfl

/-- Numbers end with a digit. -/
theorem getLast?_numerals {numbers : List Nat} (h : numbers ≠ []) :
    ∃ c, (numerals numbers).getLast? = some c ∧ c.isDigit = true := by
  induction numbers with
  | nil => exact absurd rfl h
  | cons n more ih =>
    by_cases hmore : more = []
    · subst hmore
      have hlast := List.getLast?_eq_some_getLast (Nat.toDigits_ne_nil (n := n) (b := 10))
      exact ⟨_, hlast, Text.isDigit_of_mem_toDigits (List.getLast_mem _)⟩
    · obtain ⟨c, hc, hdigit⟩ := ih hmore
      refine ⟨c, ?_, hdigit⟩
      rw [numerals_cons n hmore, List.getLast?_append, List.getLast?_cons, hc]
      rfl

/-- As many pieces as there are numbers are read as these numbers. -/
theorem readPieces_numerals {numbers : List Nat} {rest : List Char} (hne : numbers ≠ [])
    (hshort : ∀ n ∈ numbers, (Nat.toDigits 10 n).length ≤ Text.digitLimit)
    (hrest : ∀ c, rest.head? = some c → Text.isDecimal c = false) :
    readPieces ((Text.pieces '.' (numerals numbers ++ rest)).take numbers.length) =
      .ok numbers := by
  induction numbers with
  | nil => exact absurd rfl hne
  | cons n more ih =>
    rw [List.forall_mem_cons] at hshort
    by_cases hmore : more = []
    · subst hmore
      obtain ⟨piece, others, hpiece, hpieces⟩ := Text.pieces_extend (point_not_mem_toDigits n) rest
      rw [numerals, List.map_singleton, Text.joined, hpieces]
      apply readPieces_cons hshort.1 _ rfl
      intro c hc
      exact hrest c (Text.head?_of_prefix hpiece hc)
    · rw [numerals_cons n hmore, List.append_assoc, List.cons_append,
        Text.pieces_append (point_not_mem_toDigits n), List.length_cons, List.take_succ_cons,
        ← List.append_nil (Nat.toDigits 10 n)]
      apply readPieces_cons hshort.1 _ (ih hmore hshort.2)
      intro c hc
      cases hc

/-! ### Spellings -/

/-- A way to write a version: one to three numbers with points between them, blanks around, and any
number of letters `v` in front. Behind three numbers there may be any text that does not go on with
a digit. -/
structure Spelling where
  before : List Char
  letters : Nat
  numbers : List Nat
  suffix : List Char
  after : List Char
  before_blank : ∀ c ∈ before, Text.isBlank c = true
  after_blank : ∀ c ∈ after, Text.isBlank c = true
  numbers_ne_nil : numbers ≠ []
  numbers_le_three : numbers.length ≤ 3
  short : ∀ n ∈ numbers, (Nat.toDigits 10 n).length ≤ Text.digitLimit
  suffix_last : suffix ≠ [] → numbers.length = 3
  suffix_stops : ∀ c, suffix.head? = some c → Text.isDecimal c = false

namespace Spelling

def text (s : Spelling) : String :=
  String.ofList (s.before ++ (List.replicate s.letters 'v' ++ numerals s.numbers ++
    (s.suffix ++ s.after)))

/-- Missing numbers are zero. -/
def version (s : Spelling) : Version :=
  ⟨s.numbers.getD 0 0, s.numbers.getD 1 0, s.numbers.getD 2 0⟩

variable (s : Spelling)

/-- What remains of the text behind the numbers when blanks are dropped from its end. -/
def rest : List Char := Text.dropRightWhile Text.isBlank (s.suffix ++ s.after)

theorem rest_of_suffix (h : s.suffix = []) : s.rest = [] := by
  rw [rest, h]
  exact Text.dropRightWhile_of_forall s.after_blank

theorem rest_stops (c : Char) (h : s.rest.head? = some c) : Text.isDecimal c = false := by
  by_cases hsuffix : s.suffix = []
  · rw [s.rest_of_suffix hsuffix] at h
    cases h
  · obtain ⟨d, tail, hd⟩ := List.exists_cons_of_ne_nil hsuffix
    have hhead := Text.head?_of_prefix (Text.dropRightWhile_prefix _ _) h
    rw [hd] at hhead
    cases hhead
    exact s.suffix_stops c (by rw [hd]; rfl)

/-- Trimmed and without the letters in front, the text starts with the first number. -/
theorem body_text :
    (Text.trim s.text.toList).dropWhile (· == 'v') = numerals s.numbers ++ s.rest := by
  obtain ⟨first, hfirst, hdigit⟩ := head?_numerals s.numbers_ne_nil
  obtain ⟨last, hlast, hdigit'⟩ := getLast?_numerals s.numbers_ne_nil
  have hend : (List.replicate s.letters 'v' ++ numerals s.numbers).getLast? = some last := by
    rw [List.getLast?_append, hlast]
    rfl
  have htrim : Text.trim s.text.toList =
      List.replicate s.letters 'v' ++ (numerals s.numbers ++ s.rest) := by
    rw [Text.trim, text, String.toList_ofList, List.dropWhile_append_of_pos s.before_blank,
      Text.dropWhile_of_head, Text.dropRightWhile_append hend (Text.isBlank_of_isDigit hdigit'),
      List.append_assoc]
    · rfl
    · intro c hc
      rw [List.append_assoc, List.head?_append, List.head?_append, hfirst] at hc
      rcases Nat.eq_zero_or_pos s.letters with hzero | hpos
      · rw [hzero] at hc
        cases hc
        exact Text.isBlank_of_isDigit hdigit
      · obtain ⟨k, hk⟩ := Nat.exists_eq_add_of_lt hpos
        rw [hk] at hc
        cases hc
        rfl
  rw [htrim, List.dropWhile_append_of_pos (by simp), Text.dropWhile_of_head]
  intro c hc
  rw [List.head?_append, hfirst] at hc
  cases hc
  exact beq_eq_false_iff_ne.mpr (Text.ne_of_isDigit hdigit rfl)

/-- The three pieces that are read are those of the numbers. -/
theorem readPieces_body :
    readPieces ((Text.pieces '.' (numerals s.numbers ++ s.rest)).take 3) = .ok s.numbers := by
  have hread := readPieces_numerals s.numbers_ne_nil s.short s.rest_stops
  by_cases hthree : s.numbers.length = 3
  · rwa [hthree] at hread
  · -- fewer numbers are all there is
    have hsuffix : s.suffix = [] := Classical.byContradiction fun h => hthree (s.suffix_last h)
    have hpieces : Text.pieces '.' (numerals s.numbers) = s.numbers.map (Nat.toDigits 10) := by
      apply Text.pieces_joined (by simpa using s.numbers_ne_nil)
      intro piece hpiece
      obtain ⟨n, -, rfl⟩ := List.mem_map.mp hpiece
      exact point_not_mem_toDigits n
    have hlength : (s.numbers.map (Nat.toDigits 10)).length = s.numbers.length := List.length_map _
    rw [s.rest_of_suffix hsuffix, List.append_nil, hpieces] at hread ⊢
    rw [List.take_of_length_le (Nat.le_of_eq hlength)] at hread
    rwa [List.take_of_length_le (hlength ▸ s.numbers_le_three)]

end Spelling

theorem ofText_spelled (s : Spelling) (quoted : String) : ofText s.text quoted = .ok s.version := by
  rw [ofText]
  simp only [s.body_text, s.readPieces_body]
  unfold Spelling.version
  have hne := s.numbers_ne_nil
  generalize s.numbers = numbers at hne ⊢
  rcases numbers with _ | ⟨a, _ | ⟨b, _ | ⟨c, more⟩⟩⟩
  · exact absurd rfl hne
  · rfl
  · rfl
  · rfl

/-! ### Comparing -/

/-- The numbers from left to right. -/
def toList (v : Version) : List Nat := [v.major, v.minor, v.patch]

/-- The numbers of a version, compared from left to right, do not come before those of another. -/
def AtLeast (a b : Version) : Prop := ¬ List.Lex (· < ·) a.toList b.toList

instance (a b : Version) : Decidable (a.AtLeast b) :=
  inferInstanceAs (Decidable ¬ List.Lex (· < ·) a.toList b.toList)

theorem lt_eq_false_iff (a b : Version) : a.lt b = false ↔ a.AtLeast b := by
  simp only [lt, AtLeast, toList, List.cons_lex_cons_iff, List.not_lex_nil, and_false, or_false,
    Bool.or_eq_false_iff, Bool.and_eq_false_iff, decide_eq_false_iff_not, beq_eq_false_iff_ne]
  omega

/-- The text starts with a number, apart from blanks and letters `v` in front. -/
def LeadsWithNumber (text : List Char) : Prop :=
  ∃ before letters c rest, text = before ++ (List.replicate letters 'v' ++ c :: rest) ∧
    (∀ b ∈ before, Text.isBlank b = true) ∧ Text.isDecimal c = true

theorem not_leadsWithNumber_cons {c : Char} (hblank : Text.isBlank c = false) (hletter : c ≠ 'v')
    (hdecimal : Text.isDecimal c = false) (text : List Char) : ¬ LeadsWithNumber (c :: text) := by
  rintro ⟨before, letters, d, rest, htext, hbefore, hd⟩
  cases before with
  | nil =>
    cases letters with
    | zero =>
      cases htext
      rw [hdecimal] at hd
      cases hd
    | succ n => exact hletter (List.cons.inj htext).1
  | cons b others =>
    cases htext
    rw [hbefore c List.mem_cons_self] at hblank
    cases hblank

/-- What is read of a text stands behind blanks and letters `v`. -/
theorem exists_body (text : List Char) : ∃ before letters tail,
    text = before ++ (List.replicate letters 'v' ++
      ((Text.trim text).dropWhile (· == 'v') ++ tail)) ∧ ∀ b ∈ before, Text.isBlank b = true := by
  obtain ⟨tail, htail⟩ := Text.dropRightWhile_prefix Text.isBlank (text.dropWhile Text.isBlank)
  let letters := (Text.trim text).takeWhile (· == 'v')
  have hletters : List.replicate letters.length 'v' = letters := by
    rw [eq_comm, List.eq_replicate_iff]
    refine ⟨rfl, fun c hc => ?_⟩
    exact beq_iff_eq.mp (List.all_eq_true.mp List.all_takeWhile c hc)
  refine ⟨text.takeWhile Text.isBlank, letters.length, tail, ?_,
    List.all_eq_true.mp List.all_takeWhile⟩
  calc text = text.takeWhile Text.isBlank ++ text.dropWhile Text.isBlank :=
        List.takeWhile_append_dropWhile.symm
    _ = text.takeWhile Text.isBlank ++ (Text.trim text ++ tail) := by
        rw [← htail]
        rfl
    _ = text.takeWhile Text.isBlank ++
          ((letters ++ (Text.trim text).dropWhile (· == 'v')) ++ tail) := by
        rw [List.takeWhile_append_dropWhile]
    _ = _ := by rw [hletters, List.append_assoc]

/-- Text is read only if it starts with a number. -/
theorem ofText_unreadable {text : String} (h : ¬ LeadsWithNumber text.toList) (quoted : String) :
    ofText text quoted = .error (.unreadable quoted) := by
  obtain ⟨before, letters, tail, htext, hbefore⟩ := exists_body text.toList
  rw [ofText]
  generalize (Text.trim text.toList).dropWhile (· == 'v') = body at htext ⊢
  obtain ⟨piece, more, hpieces⟩ := List.exists_cons_of_ne_nil (Text.pieces_ne_nil '.' body)
  have hnone : piece.takeWhile Text.isDecimal = [] := by
    cases hpiece : piece with
    | nil => rfl
    | cons c others =>
      apply List.takeWhile_cons_of_neg
      intro hc
      apply h
      obtain ⟨rest, hrest⟩ := Text.head_pieces_prefix hpieces
      refine ⟨before, letters, c, others ++ (rest ++ tail), ?_, hbefore, hc⟩
      rw [htext, ← hrest, hpiece, List.append_assoc, List.cons_append]
  simp only [hpieces, List.take_succ_cons, readPieces, hnone, List.isEmpty_nil, if_true]
  rfl

/-- A host of a version that is spelled out passes exactly if its numbers, from left to right, are
at least those of the minimum; otherwise it is incompatible. A version that does not start with a
number is incompatible with every minimum. -/
theorem check_compares (host least : Spelling) (name : String) :
    (check (.text host.text) name least.text = .ok host.version ↔
        host.version.AtLeast least.version) ∧
      (¬ host.version.AtLeast least.version →
        ∃ e, check (.text host.text) name least.text = .error (.incompatible e) ∧
          e.version = host.text ∧ e.minimum = least.text) ∧
      ∀ (other : Value) (minimum : String), ¬ LeadsWithNumber other.shown.toList →
        ∃ e, check other name minimum = .error (.incompatible e) ∧
          e.version = other.shown ∧ e.minimum = minimum := by
  have hhost : ofValue (.text host.text) = .ok host.version := ofText_spelled host _
  have hleast := ofText_spelled least (Text.quoted least.text)
  refine ⟨?_, ?_, ?_⟩
  · rw [← lt_eq_false_iff, check, hhost]
    simp only [hleast]
    cases hlt : host.version.lt least.version with
    | true =>
      constructor
      · intro h
        cases h
      · intro h
        cases h
    | false => exact ⟨fun _ => rfl, fun _ => rfl⟩
  · intro hlt
    rw [← lt_eq_false_iff, Bool.not_eq_false] at hlt
    rw [check, hhost]
    simp only [hleast, hlt, if_true]
    exact ⟨_, rfl, rfl, rfl⟩
  · intro other minimum hother
    rw [check, ofValue, ofText_unreadable hother]
    exact ⟨_, rfl, rfl, rfl⟩

/-- A release candidate. -/
def candidate : Spelling where
  before := [' ', ' ']
  letters := 1
  numbers := [1, 10, 0]
  suffix := ['-', 'r', 'c', '.', '1']
  after := ['\n']
  before_blank := List.all_eq_true.mp rfl
  after_blank := List.all_eq_true.mp rfl
  numbers_ne_nil := by decide
  numbers_le_three := by decide
  short := by decide
  suffix_last _ := rfl
  suffix_stops c h := by
    cases h
    decide

/-- An earlier version, of two numbers. -/
def earlier : Spelling where
  before := []
  letters := 0
  numbers := [1, 9]
  suffix := []
  after := []
  before_blank := List.all_eq_true.mp rfl
  after_blank := List.all_eq_true.mp rfl
  numbers_ne_nil := by decide
  numbers_le_three := by decide
  short := by decide
  suffix_last h := absurd rfl h
  suffix_stops c h := by cases h

theorem check_compares_candidate :
    candidate.text = "  v1.10.0-rc.1\n" ∧ earlier.text = "1.9" ∧
      check (.text candidate.text) "propstrip" earlier.text = .ok ⟨1, 10, 0⟩ ∧
      (∃ e, check (.text earlier.text) "propstrip" candidate.text = .error (.incompatible e) ∧
        e.version = "1.9" ∧ e.minimum = "  v1.10.0-rc.1\n") ∧
      ∃ e, check (.text "beta") "propstrip" earlier.text = .error (.incompatible e) ∧
        e.version = "beta" ∧ e.minimum = "1.9" := by
  have hcandidate : candidate.text = "  v1.10.0-rc.1\n" := by decide
  have hearlier : earlier.text = "1.9" := by decide
  obtain ⟨hpasses, -, hunread⟩ := check_compares candidate earlier "propstrip"
  obtain ⟨-, hfails, -⟩ := check_compares earlier candidate "propstrip"
  refine ⟨hcandidate, hearlier, hpasses.mpr (by decide), ?_, ?_⟩
  · rw [← hcandidate, ← hearlier]
    exact hfails (by decide)
  · rw [← hearlier]
    apply hunread (.text "beta") earlier.text
    exact not_leadsWithNumber_cons (by decide) (by decide) (by decide) ['e', 't', 'a']

end Version
end PropShear
