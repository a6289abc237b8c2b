import PropShear.Proofs.Json.Reader

/-! Documents are read back from their text.

The text of a document is cut into the tokens of the document (`tokens?_render`): characters that
are escaped are found again as their UTF-16 units, and a number is never run together with what
follows it. The automaton then goes from the start of a value to its end, whatever is open around it
(`run_tokens`). Both go by the shape of the document, so they end at the document itself
(`read?_render`), and no two documents have the same text. -/
namespace PropShear.Json

/-! ### The tokens of a document -/

mutual
def tokens : Json → List Token
  | null => [.null]
  | number n => [.number n]
  | text s => [.text s]
  | array items => .openArray :: itemTokens items ++ [.closeArray]
  | object members => .openObject :: memberTokens members ++ [.closeObject]

def itemTokens : List Json → List Token
  | [] => []
  | [item] => item.tokens
  | item :: more => item.tokens ++ .comma :: itemTokens more

def memberTokens : List (String × Json) → List Token
  | [] => []
  | [(key, value)] => .text key :: .colon :: value.tokens
  | (key, value) :: more => .text key :: .colon :: value.tokens ++ .comma :: memberTokens more
end

theorem itemTokens_cons_cons (item next : Json) (more : List Json) :
    itemTokens (item :: next :: more) = item.tokens ++ .comma :: itemTokens (next :: more) := by
  apply itemTokens.eq_3
  intro h
  cases h

theorem memberTokens_cons_cons (key : String) (value : Json) (next : String × Json)
    (more : List (String × Json)) :
    memberTokens ((key, value) :: next :: more) =
      .text key :: .colon :: value.tokens ++ .comma :: memberTokens (next :: more) := by
  apply memberTokens.eq_3
  intro h
  cases h

/-! ### Texts -/

theorem digitBelow?_digitChar {d : Nat} (h : d < 16) :
    Text.digitBelow? 16 (Nat.digitChar d) = some d := by
  have hall : ∀ k : Fin 16, Text.digitBelow? 16 (Nat.digitChar k) = some k.val := by decide
  exact hall ⟨d, h⟩

/-- The escape of a unit is read as that unit. -/
theorem readPoints?_unit {u : Nat} (h : u < 0x10000) (rest : List Char) :
    readPoints? ('\\' :: 'u' :: Text.hexDigits 4 u ++ rest) =
      (readPoints? rest).map fun found => (u :: found.1, found.2) := by
  have hdigits : Text.hexDigits 4 u = [Nat.digitChar (u / 4096 % 16), Nat.digitChar (u / 256 % 16),
      Nat.digitChar (u / 16 % 16), Nat.digitChar (u / 1 % 16)] := rfl
  have hunit : unit? (Nat.digitChar (u / 4096 % 16)) (Nat.digitChar (u / 256 % 16))
      (Nat.digitChar (u / 16 % 16)) (Nat.digitChar (u / 1 % 16)) = some u := by
    have hvalue : (u / 4096 % 16 * 16 + u / 256 % 16) * 0x100 + (u / 16 % 16 * 16 + u / 1 % 16) = u := by
      omega
    simp only [unit?, digitBelow?_digitChar (Nat.mod_lt _ (show 0 < 16 by decide)),
      Option.bind_eq_bind, Option.bind_some, hvalue]
    rfl
  rw [hdigits]
  show readPoints? ('\\' :: 'u' :: _ :: _ :: _ :: _ :: rest) = _
  rw [readPoints?, hunit]
  rfl

/-- A character that stands for itself. -/
theorem readPoints?_plain {c : Char} (hleast : 32 ≤ c.toNat) (hquote : c ≠ '"') (hslash : c ≠ '\\')
    (rest : List Char) :
    readPoints? (c :: rest) = (readPoints? rest).map fun found => (c.toNat :: found.1, found.2) := by
  rw [readPoints?.eq_def]
  split
  · next h => cases h
  · next h =>
    cases h
    exact absurd rfl hquote
  · next h =>
    cases h
    exact absurd rfl hslash
  · next h =>
    cases h
    exact absurd rfl hslash
  · next h =>
    cases h
    exact if_neg (Nat.not_lt.mpr hleast)

theorem readPoints?_units {units : List Nat} (h : ∀ u ∈ units, u < 0x10000) (rest : List Char) :
    readPoints? (units.flatMap (fun u => '\\' :: 'u' :: Text.hexDigits 4 u) ++ rest) =
      (readPoints? rest).map fun found => (units ++ found.1, found.2) := by
  induction units with
  | nil => exact Option.map_id'.symm
  | cons u more ih =>
    rw [List.forall_mem_cons] at h
    rw [List.flatMap_cons, List.append_assoc, readPoints?_unit h.1, ih h.2, Option.map_map]
    rfl

theorem units_lt {c : Char} {u : Nat} (h : u ∈ units c) : u < 0x10000 := by
  have hc := Text.toNat_lt c
  unfold units at h
  split at h
  · next hsmall => rwa [List.mem_singleton.mp h]
  · simp only [List.mem_cons, List.not_mem_nil, or_false] at h
    omega

/-- Whatever a character is written as, it is read as its units. -/
theorem readPoints?_escapeChar (c : Char) (rest : List Char) :
    readPoints? (escapeChar c ++ rest) =
      (readPoints? rest).map fun found => (Text.codeUnits c.toNat ++ found.1, found.2) := by
  unfold escapeChar
  iterate 7
    split
    · next h => rw [h]; rfl
  split
  · next hquote hslash _ _ _ _ _ hplain =>
    rw [Bool.and_eq_true, decide_eq_true_eq, decide_eq_true_eq] at hplain
    rw [List.singleton_append, readPoints?_plain hplain.1 hquote hslash,
      Text.codeUnits_small (by omega)]
    rfl
  · exact readPoints?_units (fun u => units_lt) rest

theorem readPoints?_escaped (s : List Char) (rest : List Char) :
    readPoints? (s.flatMap escapeChar ++ '"' :: rest) =
      some (Text.utf16 (Text.codePoints s), rest) := by
  induction s with
  | nil => rfl
  | cons c more ih =>
    rw [List.flatMap_cons, List.append_assoc, readPoints?_escapeChar, ih]
    rfl

/-- A text is read as one token. -/
theorem nextToken?_renderText (s : String) (rest : List Char) :
    nextToken? (renderText s.toList ++ rest) = some (.text s, rest) := by
  have hread := readPoints?_escaped s.toList rest
  have hwhole : renderText s.toList ++ rest = '"' :: (s.toList.flatMap escapeChar ++ '"' :: rest) := by
    simp [renderText]
  rw [hwhole, nextToken?, hread]
  show ((Text.ofCodePoints? (Text.joinPairs (Text.utf16 (Text.codePoints s.toList)))).bind fun t =>
    some (Token.text t, rest)) = _
  rw [Text.ofCodePoints?_joinPairs]
  rfl

/-! ### Numbers -/

/-- What follows a number does not go on with it. -/
def Stops (rest : List Char) : Prop := ∀ c ∈ rest.head?, c.isDigit = false

theorem head_toDigits {n : Nat} (h : 0 < n) : (Nat.toDigits 10 n).head? ≠ some '0' := by
  induction n using Nat.strongRecOn with
  | ind n ih =>
    rcases Nat.lt_or_ge n 10 with hsmall | hlarge
    · have hall : ∀ k : Fin 10, 0 < k.val → Nat.digitChar k ≠ '0' := by decide
      rw [Nat.toDigits_of_lt_base hsmall]
      simpa using hall ⟨n, hsmall⟩ h
    · rw [Nat.toDigits_of_base_le (by decide) hlarge, List.head?_append_of_ne_nil _ Nat.toDigits_ne_nil]
      exact ih (n / 10) (by omega) (by omega)

theorem readNat?_toDigits (n : Nat) {rest : List Char} (hrest : Stops rest) :
    readNat? (Nat.toDigits 10 n ++ rest) = some (n, rest) := by
  rcases Nat.eq_zero_or_pos n with rfl | hpos
  · rfl
  · obtain ⟨c, more, hdigits⟩ := List.exists_cons_of_ne_nil (Nat.toDigits_ne_nil (b := 10) (n := n))
    have hall : ∀ d ∈ c :: more, d.isDigit = true := fun d hd =>
      Nat.isDigit_of_mem_toDigits (by decide) (by decide) (hdigits ▸ hd)
    have hzero : c ≠ '0' := by
      intro hc
      apply head_toDigits hpos
      rw [hdigits, hc]
      rfl
    have hvalue : Nat.ofDigitChars 10 (c :: more) 0 = n := hdigits ▸ Nat.ofDigitChars_ten_toDigits
    rw [List.forall_mem_cons] at hall
    rw [hdigits, List.cons_append, readNat?.eq_2 _ _ hzero, if_pos hall.1,
      List.takeWhile_append_of_pos hall.2, List.dropWhile_append_of_pos hall.2]
    cases rest with
    | nil => simp [hvalue]
    | cons d others => simp [hrest d rfl, hvalue]

/-- What starts with a sign or a digit is a number. -/
theorem nextToken?_number {c : Char} (hc : c = '-' ∨ c.isDigit = true) (s : List Char) :
    nextToken? (c :: s) = (readInt? (c :: s)).map fun found => (.number found.1, found.2) := by
  apply nextToken?.eq_9
  all_goals
    intro rest h
    cases h
    revert hc
    decide

theorem toList_toString (n : Int) : (toString n).toList =
    if 0 ≤ n then Nat.toDigits 10 n.toNat else '-' :: Nat.toDigits 10 (-n).toNat := by
  rw [Int.toString_eq_repr, Int.repr_eq_if]
  split
  · exact Nat.toList_repr
  · rw [String.toList_append, Nat.toList_repr]
    rfl

theorem nextToken?_toString (n : Int) {rest : List Char} (hrest : Stops rest) :
    nextToken? ((toString n).toList ++ rest) = some (.number n, rest) := by
  rw [toList_toString]
  split
  · next hn =>
    obtain ⟨c, more, hdigits⟩ := List.exists_cons_of_ne_nil
      (Nat.toDigits_ne_nil (b := 10) (n := n.toNat))
    have hc : c.isDigit = true :=
      Nat.isDigit_of_mem_toDigits (by decide) (by decide) (hdigits ▸ List.mem_cons_self)
    have hsign : ∀ tail, c :: (more ++ rest) = '-' :: tail → False := by
      intro tail h
      cases h
      cases hc
    have hread := readNat?_toDigits n.toNat hrest
    rw [hdigits, List.cons_append] at hread ⊢
    rw [nextToken?_number (.inr hc), readInt?.eq_2 _ hsign, hread]
    simp [Int.toNat_of_nonneg hn]
  · next hn =>
    rw [List.cons_append, nextToken?_number (.inl rfl), readInt?, readNat?_toDigits _ hrest]
    have hvalue : -(((-n).toNat : Nat) : Int) = n := by omega
    show some (Token.number (-(((-n).toNat : Nat) : Int)), rest) = _
    rw [hvalue]

/-! ### The text of a document -/

/-- A separator is read as a token, and the blank after it as nothing. -/
theorem tokens?_separator {c : Char} {t : Token}
    (h : ∀ s, nextToken? (c :: s) = some (t, s)) (rest : List Char) :
    tokens? ([c, ' '] ++ rest) = (tokens? rest).map (t :: ·) := by
  show tokens? (c :: ' ' :: rest) = _
  rw [tokens?_next (h _), tokens?_blank rfl]

mutual

/-- A document is cut into its tokens, wherever it stands. -/
theorem tokens?_render (j : Json) {rest : List Char} (hrest : Stops rest) :
    tokens? (j.render ++ rest) = (tokens? rest).map (j.tokens ++ ·) := by
  match j with
  | null => exact tokens?_next rfl
  | number n => exact tokens?_next (nextToken?_toString n hrest)
  | text s => exact tokens?_next (nextToken?_renderText s rest)
  | array items =>
    have hend : Stops (']' :: rest) := by simp [Stops]
    have hwhole : (array items).render ++ rest = '[' :: (renderItems items ++ ']' :: rest) := by
      simp [render]
    rw [hwhole, tokens?_next rfl, tokens?_renderItems items hend, tokens?_next rfl]
    simp [tokens, Function.comp_def]
  | object members =>
    have hend : Stops ('\x7d' :: rest) := by simp [Stops]
    have hwhole : (object members).render ++ rest =
        '\x7b' :: (renderMembers members ++ '\x7d' :: rest) := by
      simp [render]
    rw [hwhole, tokens?_next rfl, tokens?_renderMembers members hend, tokens?_next rfl]
    simp [tokens, Function.comp_def]

theorem tokens?_renderItems (items : List Json) {rest : List Char} (hrest : Stops rest) :
    tokens? (renderItems items ++ rest) = (tokens? rest).map (itemTokens items ++ ·) := by
  match items with
  | [] => exact Option.map_id'.symm
  | [item] => exact tokens?_render item hrest
  | item :: next :: more =>
    have hcomma : Stops ([',', ' '] ++ (renderItems (next :: more) ++ rest)) := by simp [Stops]
    rw [renderItems.eq_3 _ _ (by simp), List.append_assoc, List.append_assoc,
      tokens?_render item hcomma, tokens?_separator fun s => rfl,
      tokens?_renderItems (next :: more) hrest, itemTokens_cons_cons]
    simp only [Option.map_map, Function.comp_def, List.append_assoc, List.cons_append]

theorem tokens?_renderMembers (members : List (String × Json)) {rest : List Char}
    (hrest : Stops rest) :
    tokens? (renderMembers members ++ rest) = (tokens? rest).map (memberTokens members ++ ·) := by
  match members with
  | [] => exact Option.map_id'.symm
  | [(key, value)] =>
    rw [renderMembers.eq_2, List.append_assoc, List.append_assoc,
      tokens?_next (nextToken?_renderText key _), tokens?_separator fun s => rfl,
      tokens?_render value hrest]
    simp [memberTokens, Function.comp_def]
  | (key, value) :: next :: more =>
    have hcomma : Stops ([',', ' '] ++ (renderMembers (next :: more) ++ rest)) := by simp [Stops]
    rw [renderMembers.eq_3 _ _ _ (by simp), List.append_assoc, List.append_assoc, List.append_assoc,
      List.append_assoc, tokens?_next (nextToken?_renderText key _), tokens?_separator fun s => rfl,
      tokens?_render value hcomma, tokens?_separator fun s => rfl,
      tokens?_renderMembers (next :: more) hrest, memberTokens_cons_cons]
    simp only [Option.map_map, Function.comp_def, List.append_assoc, List.cons_append]

end

/-! ### The run of the automaton -/

/-- An array that has items does not end at once, so its first item is read like any other. -/
theorem foldlM_firstItem {items : List Json} (hne : items ≠ []) (stack : List Frame)
    (rest : List Token) :
    (itemTokens items ++ rest).foldlM step (.firstItem stack) =
      (itemTokens items ++ rest).foldlM step (.value (.array [] :: stack)) := by
  rcases items with _ | ⟨item, _ | ⟨next, more⟩⟩
  · exact absurd rfl hne
  · cases item <;> rfl
  · rw [itemTokens_cons_cons]
    cases item <;> rfl

theorem foldlM_firstKey {members : List (String × Json)} (hne : members ≠ []) (stack : List Frame)
    (rest : List Token) :
    (memberTokens members ++ rest).foldlM step (.firstKey stack) =
      (memberTokens members ++ rest).foldlM step (.key [] stack) := by
  rcases members with _ | ⟨⟨key, value⟩, _ | ⟨next, more⟩⟩
  · exact absurd rfl hne
  · rfl
  · rw [memberTokens_cons_cons]
    rfl

mutual

/-- The tokens of a value take the automaton over that value, and leave what is open around it. -/
theorem run_tokens (j : Json) (stack : List Frame) :
    j.tokens.foldlM step (.value stack) = some (.follow j stack) := by
  match j with
  | null => rfl
  | number n => rfl
  | text s => rfl
  | array items =>
    show (itemTokens items ++ [Token.closeArray]).foldlM step (.firstItem stack) = _
    by_cases hne : items = []
    · rw [hne]
      rfl
    · rw [foldlM_firstItem hne]
      exact run_itemTokens items hne [] stack
  | object members =>
    show (memberTokens members ++ [Token.closeObject]).foldlM step (.firstKey stack) = _
    by_cases hne : members = []
    · rw [hne]
      rfl
    · rw [foldlM_firstKey hne]
      exact run_memberTokens members hne [] stack

/-- The last items of an array, after those that have been read. -/
theorem run_itemTokens (items : List Json) (hne : items ≠ []) (done : List Json)
    (stack : List Frame) :
    (itemTokens items ++ [Token.closeArray]).foldlM step (.value (.array done :: stack)) =
      some (.follow (.array (done ++ items)) stack) := by
  match items with
  | [] => exact absurd rfl hne
  | [item] =>
    show (item.tokens ++ [Token.closeArray]).foldlM step _ = _
    rw [List.foldlM_append, run_tokens item]
    rfl
  | item :: next :: more =>
    rw [itemTokens_cons_cons, List.append_assoc, List.foldlM_append, run_tokens item]
    show (itemTokens (next :: more) ++ [Token.closeArray]).foldlM step
      (.value (.array (done ++ [item]) :: stack)) = _
    rw [run_itemTokens (next :: more) (List.cons_ne_nil _ _), List.append_assoc]
    rfl

theorem run_memberTokens (members : List (String × Json)) (hne : members ≠ [])
    (done : List (String × Json)) (stack : List Frame) :
    (memberTokens members ++ [Token.closeObject]).foldlM step (.key done stack) =
      some (.follow (.object (done ++ members)) stack) := by
  match members with
  | [] => exact absurd rfl hne
  | [(key, value)] =>
    show (value.tokens ++ [Token.closeObject]).foldlM step (.value (.object done key :: stack)) = _
    rw [List.foldlM_append, run_tokens value]
    rfl
  | (key, value) :: next :: more =>
    rw [memberTokens_cons_cons]
    show (value.tokens ++ Token.comma :: memberTokens (next :: more) ++ [Token.closeObject]).foldlM step
      (.value (.object done key :: stack)) = _
    rw [List.append_assoc, List.foldlM_append, run_tokens value]
    show (memberTokens (next :: more) ++ [Token.closeObject]).foldlM step
      (.key (done ++ [(key, value)]) stack) = _
    rw [run_memberTokens (next :: more) (List.cons_ne_nil _ _), List.append_assoc]
    rfl

end

/-- The document of a text is the one that the text was written from. -/
theorem read?_render (j : Json) : read? j.render = some j := by
  have hend : Stops [] := by simp [Stops]
  have htokens : tokens? j.render = some j.tokens := by
    have h := tokens?_render j hend
    rw [List.append_nil] at h
    rw [h, tokens?]
    simp
  rw [read?, htokens]
  simp [run_tokens]

theorem render_injective {j k : Json} (h : j.render = k.render) : j = k :=
  Option.some.inj (by rw [← read?_render j, h, read?_render k])

end PropShear.Json
