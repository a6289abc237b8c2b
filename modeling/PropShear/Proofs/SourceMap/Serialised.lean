import PropShear.Proofs.Json.RoundTrip
import PropShear.Proofs.Text.Base64
import PropShear.Proofs.Text.Utf8
import PropShear.Proofs.Version
import PropShear.SourceMap.Basic

/-! Published maps lose nothing.

The text of a document is ASCII (`render_ascii`), so its characters are its bytes in UTF-8 and the
URL holds exactly that text. The document of a map tells every field of it: an absent member is an
absent field, and `null` in a list is an absent entry (`toJson_injective`). As documents are read
back from their text, so are maps. -/
namespace PropShear

/-! ### ASCII text -/

namespace Json

theorem digitChar_ascii {d : Nat} (h : d < 16) : (Nat.digitChar d).toNat < 128 := by
  have hall : ∀ k : Fin 16, (Nat.digitChar k).toNat < 128 := by decide
  exact hall ⟨d, h⟩

theorem hexDigits_ascii (width n : Nat) : ∀ c ∈ Text.hexDigits width n, c.toNat < 128 := by
  intro c hc
  obtain ⟨i, -, rfl⟩ := List.mem_map.mp hc
  exact digitChar_ascii (Nat.mod_lt _ (by decide))

theorem escapeChar_ascii (c : Char) : ∀ d ∈ escapeChar c, d.toNat < 128 := by
  have hpair (e : Char) (he : e.toNat < 128) : ∀ d ∈ ['\\', e], d.toNat < 128 := by
    simpa using he
  unfold escapeChar
  iterate 7
    split
    · exact hpair _ (by decide)
  split
  · next hplain =>
    rw [Bool.and_eq_true, decide_eq_true_eq, decide_eq_true_eq] at hplain
    intro d hd
    rw [List.mem_singleton.mp hd]
    omega
  · intro d hd
    obtain ⟨u, -, hd⟩ := List.mem_flatMap.mp hd
    simp only [List.mem_cons] at hd
    rcases hd with rfl | rfl | hd
    · decide
    · decide
    · exact hexDigits_ascii 4 u d hd

theorem renderText_ascii (s : List Char) : ∀ c ∈ renderText s, c.toNat < 128 := by
  intro c hc
  simp only [renderText, List.cons_append, List.mem_cons, List.mem_append, List.mem_flatMap,
    List.not_mem_nil, or_false] at hc
  rcases hc with rfl | ⟨d, -, hd⟩ | rfl
  · decide
  · exact escapeChar_ascii d c hd
  · decide

theorem toString_ascii (n : Int) : ∀ c ∈ (toString n).toList, c.toNat < 128 := by
  have hdigits (k : Nat) : ∀ c ∈ Nat.toDigits 10 k, c.toNat < 128 := by
    intro c hc
    have := (Text.toNat_of_isDigit (Text.isDigit_of_mem_toDigits hc)).2
    omega
  rw [toList_toString]
  split
  · exact hdigits _
  · exact List.forall_mem_cons.mpr ⟨by decide, hdigits _⟩

mutual

/-- Documents are written in ASCII. -/
theorem render_ascii (j : Json) : ∀ c ∈ j.render, c.toNat < 128 := by
  match j with
  | null =>
    show ∀ c ∈ ['n', 'u', 'l', 'l'], c.toNat < 128
    simp
  | number n => exact toString_ascii n
  | text s => exact renderText_ascii s.toList
  | array items =>
    simpa [render, or_imp, forall_and] using renderItems_ascii items
  | object members =>
    simpa [render, or_imp, forall_and] using renderMembers_ascii members

theorem renderItems_ascii (items : List Json) : ∀ c ∈ renderItems items, c.toNat < 128 := by
  match items with
  | [] => simp [renderItems]
  | [item] => exact render_ascii item
  | item :: next :: more =>
    rw [renderItems.eq_3 _ _ (by simp)]
    simpa [or_imp, forall_and] using ⟨render_ascii item, renderItems_ascii (next :: more)⟩

theorem renderMembers_ascii (members : List (String × Json)) :
    ∀ c ∈ renderMembers members, c.toNat < 128 := by
  match members with
  | [] => simp [renderMembers]
  | [(key, value)] =>
    simpa [renderMembers, or_imp, forall_and] using
      ⟨renderText_ascii key.toList, render_ascii value⟩
  | (key, value) :: next :: more =>
    rw [renderMembers.eq_3 _ _ _ (by simp)]
    simpa [or_imp, forall_and] using ⟨renderText_ascii key.toList, render_ascii value,
      renderMembers_ascii (next :: more)⟩

end

end Json

/-- In UTF-8 the bytes of ASCII text are the numbers of its characters. -/
theorem Text.Utf8.encode_ascii {s : List Char} (h : ∀ c ∈ s, c.toNat < 128) :
    encode s = s.map fun c => c.toNat.toUInt8 := by
  induction s with
  | nil => rfl
  | cons c more ih =>
    rw [List.forall_mem_cons] at h
    have hc : String.utf8EncodeChar c = [c.toNat.toUInt8] := if_pos (Nat.le_of_lt_succ h.1)
    rw [encode_cons, ih h.2, hc]
    rfl

namespace SourceMap

/-! ### The document of a map -/

theorem textOrNull_inj (s t : Option String) (h : textOrNull s = textOrNull t) : s = t := by
  cases s <;> cases t <;> cases h <;> rfl

/-- A member that may be absent, before one that is always there. -/
def optional {α : Type} (key : String) (f : α → Json) (a : Option α)
    (rest : List (String × Json)) : List (String × Json) :=
  (a.map fun x => (key, f x)).toList ++ rest

theorem toJson_eq (m : SourceMap) : m.toJson = .object (("version", .number m.version) ::
    optional "file" Json.text m.file (("sources", .array (m.sources.map textOrNull)) ::
      optional "sourcesContent" (fun c => Json.array (c.map textOrNull)) m.sourcesContent
        [("names", .array (m.names.map .text)), ("mappings", .text m.mappings)])) := by
  simp only [toJson, optional, List.append_assoc, List.cons_append, List.nil_append]

/-- Whether a member is absent shows at the key that comes next. -/
theorem optional_inj {α : Type} {key next : String} {f : α → Json} (hkey : key ≠ next)
    (hf : ∀ a b, f a = f b → a = b) {a b : Option α} {v w : Json} {l k : List (String × Json)}
    (h : optional key f a ((next, v) :: l) = optional key f b ((next, w) :: k)) :
    a = b ∧ v = w ∧ l = k := by
  cases a with
  | none =>
    cases b with
    | none => simpa [optional] using h
    | some y => exact absurd (congrArg Prod.fst (List.cons.inj h).1) hkey.symm
  | some x =>
    cases b with
    | none => exact absurd (congrArg Prod.fst (List.cons.inj h).1) hkey
    | some y =>
      obtain ⟨hmember, hrest⟩ := List.cons.inj h
      obtain rfl := hf x y (congrArg Prod.snd hmember)
      simpa using hrest

theorem toJson_injective {m m' : SourceMap} (h : m.toJson = m'.toJson) : m = m' := by
  rw [toJson_eq, toJson_eq] at h
  obtain ⟨hversion, hmembers⟩ := List.cons.inj (Json.object.inj h)
  obtain ⟨hfile, hsources, hmembers⟩ := optional_inj (by decide) (fun _ _ => Json.text.inj) hmembers
  have hlist (l k : List (Option String))
      (h : Json.array (l.map textOrNull) = .array (k.map textOrNull)) : l = k :=
    (List.map_inj_right textOrNull_inj).mp (Json.array.inj h)
  obtain ⟨hcontent, hnames, hmembers⟩ := optional_inj (by decide) hlist hmembers
  have hmappings := congrArg Prod.snd (List.cons.inj hmembers).1
  obtain ⟨mappings, sources, content, names, file, version, short⟩ := m
  obtain ⟨mappings', sources', content', names', file', version', short'⟩ := m'
  obtain rfl := Json.number.inj (congrArg Prod.snd hversion)
  obtain rfl : file = file' := hfile
  obtain rfl := hlist _ _ hsources
  obtain rfl : content = content' := hcontent
  obtain rfl := (List.map_inj_right fun _ _ => Json.text.inj).mp (Json.array.inj hnames)
  obtain rfl := Json.text.inj hmappings
  rfl

/-! ### What is published -/

/-- A map can be read back from what is published of it: its text is ASCII and holds its document,
its URL holds its text, and maps that differ in a field differ in their text. -/
theorem document_faithful (m : SourceMap) :
    (∀ c ∈ m.toText.toList, c.toNat < 128) ∧
    Json.read? m.toText.toList = some m.toJson ∧
    (∃ payload, m.toUrl = "data:application/json;charset=utf-8;base64," ++ String.ofList payload ∧
      (Text.Base64.decode? payload).map Text.Utf8.decode = some (.ok m.toText.toList)) ∧
    ∀ m' : SourceMap, m.toText = m'.toText ↔
      m.mappings = m'.mappings ∧ m.sources = m'.sources ∧ m.sourcesContent = m'.sourcesContent ∧
        m.names = m'.names ∧ m.file = m'.file ∧ m.version = m'.version := by
  have htext : m.toText.toList = m.toJson.render := String.toList_ofList
  rw [htext]
  refine ⟨Json.render_ascii _, Json.read?_render _, ⟨_, rfl, ?_⟩, fun m' => ⟨fun h => ?_, ?_⟩⟩
  · rw [Text.Base64.decode?_encode, ← Text.Utf8.encode_ascii (Json.render_ascii _), Option.map_some,
      Text.Utf8.decode_encode]
  · obtain rfl := toJson_injective (Json.render_injective (String.ofList_inj.mp h))
    exact ⟨rfl, rfl, rfl, rfl, rfl, rfl⟩
  · intro hfields
    obtain ⟨hmappings, hsources, hcontent, hnames, hfile, hversion⟩ := hfields
    simp only [toText, toJson, hmappings, hsources, hcontent, hnames, hfile, hversion]

end SourceMap
end PropShear
