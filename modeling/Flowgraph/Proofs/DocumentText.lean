import Flowgraph.Document.Printer
import Flowgraph.Document.Reading
import Mathlib.Data.List.Forall2
import Mathlib.Tactic.SplitIfs

namespace Flowgraph.Document

/-- The piece stands for the character, as itself or as the number of a control character. -/
inductive Piece.Spells : Piece → Char → Prop where
  | char (c : Char) : Spells (.char c) c
  | unit (c : Char) (control : c.toNat < 0x20) : Spells (.unit c.toNat) c

theorem hexDigit?_digitChar (n : Nat) (hn : n < 16) : hexDigit? (Nat.digitChar n) = some n := by
  revert n
  decide

theorem codeUnit?_digitChar (n : Nat) (hn : n < 256) :
    codeUnit? '0' '0' (Nat.digitChar (n / 16)) (Nat.digitChar (n % 16)) = some n := by
  have hzero : hexDigit? '0' = some 0 := rfl
  simp only [codeUnit?, hzero, hexDigit?_digitChar (n / 16) (by omega),
    hexDigit?_digitChar (n % 16) (by omega)]
  exact congrArg some (by omega)

/-- What is written for a character is one piece, which stands for it. -/
theorem pieces?_escape (c : Char) :
    ∃ p : Piece, p.Spells c ∧
      ∀ done rest, pieces? done (escape c ++ rest) = pieces? (p :: done) rest := by
  have short {c e : Char} (he : e ≠ 'u') (hc : unescape? e = some c) :
      ∃ p : Piece, p.Spells c ∧
        ∀ done rest, pieces? done (['\\', e] ++ rest) = pieces? (p :: done) rest := by
    refine ⟨.char c, .char c, fun done rest => ?_⟩
    simp [pieces?, he, hc]
  unfold escape
  split_ifs with h₁ h₂ h₃ h₄ h₅ h₆ h₇ hcontrol
  · subst h₁
    exact short (by decide) rfl
  · subst h₂
    exact short (by decide) rfl
  · subst h₃
    exact short (by decide) rfl
  · subst h₄
    exact short (by decide) rfl
  · subst h₅
    exact short (by decide) rfl
  · subst h₆
    exact short (by decide) rfl
  · subst h₇
    exact short (by decide) rfl
  · refine ⟨.unit c.toNat, .unit c hcontrol, fun done rest => ?_⟩
    simp [pieces?, codeUnit?_digitChar c.toNat (by omega)]
  · refine ⟨.char c, .char c, fun done rest => ?_⟩
    simp [pieces?, h₂, hcontrol]

theorem pieces?_flatMap_escape (cs : List Char) :
    ∃ ps, List.Forall₂ Piece.Spells ps cs ∧ ∀ done rest,
      pieces? done (cs.flatMap escape ++ '"' :: rest) = some (done.reverse ++ ps, rest) := by
  induction cs with
  | nil => exact ⟨[], .nil, fun done rest => by simp [pieces?]⟩
  | cons c cs ih =>
    obtain ⟨p, hp, hone⟩ := pieces?_escape c
    obtain ⟨ps, hps, hall⟩ := ih
    refine ⟨p :: ps, .cons hp hps, fun done rest => ?_⟩
    rw [List.flatMap_cons, List.append_assoc, hone, hall]
    simp

theorem spell?_unit {u : Nat} (hu : u < 0x20) (done : List Char) (ps : List Piece) :
    spell? done (.unit u :: ps) = spell? (Char.ofNat u :: done) ps := by
  have hhigh : isHigh u = false := by simp [isHigh]; omega
  have hlow : isLow u = false := by simp [isLow]; omega
  cases ps with
  | nil => simp [spell?, hhigh, hlow]
  | cons p ps => cases p <;> simp [spell?, hhigh, hlow]

theorem spell?_of_spells {ps : List Piece} {cs : List Char} (h : List.Forall₂ Piece.Spells ps cs)
    (done : List Char) : spell? done ps = some (done.reverse ++ cs) := by
  induction h generalizing done with
  | nil => simp [spell?]
  | cons hp _ ih =>
    cases hp with
    | char c => simp [spell?, ih]
    | unit c control => simp [spell?_unit control, ih]

/-- A text is read back from behind its opening quote. -/
theorem text?_quote (s : String) (rest : List Char) :
    text? (s.toList.flatMap escape ++ '"' :: rest) = some (some s, rest) := by
  obtain ⟨ps, hps, hall⟩ := pieces?_flatMap_escape s.toList
  simp [text?, hall, spell?_of_spells hps]

theorem head?_toDigits_ne_zero {n : Nat} (hn : 0 < n) : (Nat.toDigits 10 n).head? ≠ some '0' := by
  induction n using Nat.strongRecOn with
  | ind n ih =>
    by_cases hlt : n < 10
    · have hdigit : ∀ d < 10, 0 < d → Nat.digitChar d ≠ '0' := by decide
      simpa [Nat.toDigits_of_lt_base hlt] using hdigit n hlt hn
    · have hrest := ih (n / 10) (by omega) (by omega)
      rw [Nat.toDigits_of_base_le (by decide) (Nat.le_of_not_lt hlt)]
      rwa [List.head?_append_of_ne_nil _ Nat.toDigits_ne_nil]

/-- What follows cannot be taken for more of a number. -/
def Closing (rest : List Char) : Prop := ∀ c ∈ rest.head?, c = ',' ∨ c = ']' ∨ c = '}'

theorem digits?_append {digits rest : List Char} (hne : digits ≠ [])
    (hdigits : ∀ c ∈ digits, c.isDigit = true) (hrest : Closing rest) :
    digits? (digits ++ rest) = some (digits, rest) := by
  have hstop : ∀ c ∈ rest.head?, c.isDigit = false := by
    intro c hc
    rcases hrest c hc with rfl | rfl | rfl <;> decide
  have htake : (digits ++ rest).takeWhile Char.isDigit = digits := by
    rw [List.takeWhile_append_of_pos hdigits]
    cases rest with
    | nil => simp
    | cons c rest => simp [hstop c rfl]
  have hdrop : (digits ++ rest).dropWhile Char.isDigit = rest := by
    rw [List.dropWhile_append_of_pos hdigits]
    cases rest with
    | nil => simp
    | cons c rest => simp [hstop c rfl]
  unfold digits?
  rw [htake, hdrop]
  cases digits with
  | nil => exact absurd rfl hne
  | cons c digits => rfl

theorem unsigned?_toDigits (negative : Bool) (n : Nat) {rest : List Char} (hrest : Closing rest) :
    unsigned? negative (Nat.toDigits 10 n ++ rest) =
      some (⟨negative, Nat.toDigits 10 n, [], none⟩, rest) := by
  have hread : digits? (Nat.toDigits 10 n ++ rest) = some (Nat.toDigits 10 n, rest) :=
    digits?_append Nat.toDigits_ne_nil
      (fun c => Nat.isDigit_of_mem_toDigits (by decide) (by decide)) hrest
  have hwhole : whole? (Nat.toDigits 10 n ++ rest) = some (Nat.toDigits 10 n, rest) := by
    unfold whole?
    rw [hread]
    split
    · rename_i heq
      rcases Nat.eq_zero_or_pos n with rfl | hn
      · simp at heq
      · exact absurd (by simp_all) (head?_toDigits_ne_zero hn)
    · rfl
  have hfraction : fraction? rest = some ([], rest) := by
    cases rest with
    | nil => rfl
    | cons c rest => rcases hrest c rfl with rfl | rfl | rfl <;> rfl
  have hexponent : exponent? rest = some (none, rest) := by
    cases rest with
    | nil => rfl
    | cons c rest => rcases hrest c rfl with rfl | rfl | rfl <;> rfl
  simp [unsigned?, hwhole, hfraction, hexponent]

theorem chars_ofInt (n : Int) : (Numeral.ofInt n).chars true =
    Numeral.signChars (decide (n < 0)) ++ Nat.toDigits 10 n.natAbs := by
  simp [Numeral.ofInt, Numeral.chars, Numeral.fractionChars, Numeral.exponentChars]

/-- A character that a number can begin with. -/
def StartsNumber (c : Char) : Prop := c.isDigit = true ∨ c = '-'

theorem StartsNumber.not_blank {c : Char} (hc : StartsNumber c) : isBlank c = false := by
  simp only [isBlank, Bool.or_eq_false_iff, beq_eq_false_iff_ne]
  refine ⟨⟨⟨?_, ?_⟩, ?_⟩, ?_⟩ <;> rintro rfl <;> simp [StartsNumber] at hc

theorem chars_ofInt_head (n : Int) :
    ∃ c cs, (Numeral.ofInt n).chars true = c :: cs ∧ StartsNumber c := by
  rw [chars_ofInt]
  by_cases hn : n < 0
  · exact ⟨'-', Nat.toDigits 10 n.natAbs, by simp [Numeral.signChars, hn], .inr rfl⟩
  · obtain ⟨c, cs, hcs⟩ :=
      List.exists_cons_of_ne_nil (Nat.toDigits_ne_nil (n := n.natAbs) (b := 10))
    refine ⟨c, cs, by simp [Numeral.signChars, hn, hcs], .inl ?_⟩
    have hmem : c ∈ Nat.toDigits 10 n.natAbs := by simp [hcs]
    exact Nat.isDigit_of_mem_toDigits (by decide) (by decide) hmem

/-- A number is read back as it is written. -/
theorem numeral?_ofInt (n : Int) {rest : List Char} (hrest : Closing rest) :
    numeral? ((Numeral.ofInt n).chars true ++ rest) = some (.ofInt n, rest) := by
  rw [chars_ofInt]
  by_cases hn : n < 0
  · simp [Numeral.ofInt, Numeral.signChars, hn, numeral?, unsigned?_toDigits _ _ hrest]
  · have hread := unsigned?_toDigits false n.natAbs hrest
    have hplus : numeral? (Nat.toDigits 10 n.natAbs ++ rest) =
        unsigned? false (Nat.toDigits 10 n.natAbs ++ rest) := by
      unfold numeral?
      split
      · rename_i heq
        have hminus : '-' ∈ Nat.toDigits 10 n.natAbs := by
          cases hcs : Nat.toDigits 10 n.natAbs with
          | nil => exact absurd hcs Nat.toDigits_ne_nil
          | cons c cs => simp_all
        exact absurd (Nat.isDigit_of_mem_toDigits (by decide) (by decide) hminus) (by decide)
      · rfl
    simp [Numeral.ofInt, Numeral.signChars, hn, hplus, hread]

/-- The text of the document says all there is in it: texts spell characters and numbers are
integers of 64 bits. -/
inductive Plain : Document → Prop where
  | null : Plain .null
  | bool (b : Bool) : Plain (.bool b)
  | int (n : Int) (fits : n.natAbs < UInt64.size) : Plain (.int n)
  | string (s : String) : Plain (.string s)
  | array (items : ∀ d ∈ ds, Plain d) : Plain (.array ds)
  | object (keys : ∀ m ∈ members, m.1.isSome = true) (parts : ∀ m ∈ members, Plain m.2) :
      Plain (.object members)

theorem Plain.record (parts : ∀ m ∈ members, Plain m.2) : Plain (.record members) := by
  apply Plain.object
  · intro m hm
    obtain ⟨m', -, rfl⟩ := List.mem_map.mp hm
    rfl
  · intro m hm
    obtain ⟨m', hm', rfl⟩ := List.mem_map.mp hm
    exact parts m' hm'

/-- What stands first in a text is neither a blank nor the end of a list. -/
theorem Plain.chars_head (h : Plain d) :
    ∃ c cs, d.chars = c :: cs ∧ isBlank c = false ∧ c ≠ ']' := by
  cases h with
  | null => exact ⟨_, _, rfl, by decide, by decide⟩
  | bool b => cases b <;> exact ⟨_, _, rfl, by decide, by decide⟩
  | int n _ =>
    obtain ⟨c, cs, hcs, hc⟩ := chars_ofInt_head n
    refine ⟨c, cs, by rw [Document.int, chars, hcs], hc.not_blank, ?_⟩
    rintro rfl
    simp [StartsNumber] at hc
  | string s => exact ⟨_, _, rfl, by decide, by decide⟩
  | @array ds _ =>
    cases ds with
    | nil => exact ⟨_, _, rfl, by decide, by decide⟩
    | cons d ds => exact ⟨_, _, by rw [chars], by decide, by decide⟩
  | @object members _ _ =>
    cases members with
    | nil => exact ⟨_, _, rfl, by decide, by decide⟩
    | cons m members => exact ⟨_, _, by rw [chars], by decide, by decide⟩

theorem skip_cons {c : Char} (hc : isBlank c = false) (cs : List Char) :
    skip (c :: cs) = c :: cs := by
  simp [skip, hc]

/-- A text that begins like a number is read as one. -/
theorem value?_numeral {c : Char} (hc : StartsNumber c) (room : Nat) (cs : List Char) :
    value? (room + 1) (c :: cs) = (numeral? (c :: cs)).map fun (n, rest) => (.number n, rest) := by
  rw [value?, skip_cons hc.not_blank]
  split
  all_goals first
    | rfl
    | rename_i heq
      cases heq
      simp [StartsNumber] at hc

theorem value?_items {c : Char} (hblank : isBlank c = false) (hclose : c ≠ ']') (room : Nat)
    (cs : List Char) : value? (room + 1) ('[' :: c :: cs) =
      (items? room (c :: cs)).map fun (items, rest) => (.array items, rest) := by
  rw [value?, skip_cons (by decide)]
  simp [skip_cons hblank, hclose]

theorem value?_members {c : Char} (hblank : isBlank c = false) (hclose : c ≠ '}') (room : Nat)
    (cs : List Char) : value? (room + 1) ('{' :: c :: cs) =
      (members? room (c :: cs)).map fun (members, rest) => (.object members, rest) := by
  rw [value?, skip_cons (by decide)]
  simp [skip_cons hblank, hclose]

section

variable {room : Nat} {cs rest rest' : List Char} {d : Document} {ds : List Document}
  {members : List (Option String × Document)}

theorem items?_close (h : value? room cs = some (d, ']' :: rest)) :
    items? (room + 1) cs = some ([d], rest) := by
  simp only [items?, h, skip_cons (show isBlank ']' = false from rfl)]

theorem items?_comma (h : value? room cs = some (d, ',' :: rest))
    (hrest : items? room rest = some (ds, rest')) :
    items? (room + 1) cs = some (d :: ds, rest') := by
  simp only [items?, h, skip_cons (show isBlank ',' = false from rfl), hrest, Option.map_some]

theorem members?_close (key : String) (h : value? room cs = some (d, '}' :: rest)) :
    members? (room + 1) (quote (some key) ++ ':' :: cs) = some ([(some key, d)], rest) := by
  simp only [members?, quote, List.cons_append, List.append_assoc, List.nil_append, text?_quote,
    skip_cons (show isBlank '"' = false from rfl), skip_cons (show isBlank ':' = false from rfl), h,
    skip_cons (show isBlank '}' = false from rfl)]

theorem members?_comma (key : String) (h : value? room cs = some (d, ',' :: rest))
    (hrest : members? room rest = some (members, rest')) :
    members? (room + 1) (quote (some key) ++ ':' :: cs) =
      some ((some key, d) :: members, rest') := by
  simp only [members?, quote, List.cons_append, List.append_assoc, List.nil_append, text?_quote,
    skip_cons (show isBlank '"' = false from rfl), skip_cons (show isBlank ':' = false from rfl), h,
    skip_cons (show isBlank ',' = false from rfl), hrest, Option.map_some]

end

/-- A document is read back from the front of a text that goes on after it. -/
def ReadBack (d : Document) : Prop :=
  ∀ room rest, d.chars.length ≤ room → Closing rest →
    value? (room + 1) (d.chars ++ rest) = some (d, rest)

theorem items?_chars {d : Document} {ds : List Document} (hd : ReadBack d)
    (hds : ∀ e ∈ ds, ReadBack e) {room : Nat} (rest : List Char)
    (hroom : (d.chars ++ itemChars ds).length ≤ room) :
    items? (room + 1) (d.chars ++ itemChars ds ++ rest) = some (d :: ds, rest) := by
  induction ds generalizing d room with
  | nil =>
    simp only [itemChars, List.length_append, List.length_singleton] at hroom
    obtain ⟨room, rfl⟩ := Nat.exists_eq_add_of_lt hroom
    have hone := hd _ (']' :: rest) (Nat.le_add_right _ room) (by simp [Closing])
    simpa [itemChars] using items?_close hone
  | cons e ds ih =>
    obtain ⟨he, hds⟩ := List.forall_mem_cons.mp hds
    simp only [itemChars, List.length_append, List.length_cons] at hroom
    obtain ⟨room, rfl⟩ : ∃ n, room = n + 1 := ⟨room - 1, by omega⟩
    have hone := hd room (',' :: (e.chars ++ itemChars ds ++ rest)) (by omega) (by simp [Closing])
    have hmore : items? (room + 1) (e.chars ++ itemChars ds ++ rest) = some (e :: ds, rest) := by
      apply ih he hds
      simp only [List.length_append]
      omega
    simpa [itemChars] using items?_comma hone hmore

theorem members?_chars {d : Document} {members : List (Option String × Document)} (key : String)
    (hd : ReadBack d) (hkeys : ∀ m ∈ members, m.1.isSome = true)
    (hparts : ∀ m ∈ members, ReadBack m.2) {room : Nat} (rest : List Char)
    (hroom : (d.chars ++ memberChars members).length ≤ room) :
    members? (room + 1) (quote (some key) ++ ':' :: (d.chars ++ memberChars members ++ rest)) =
      some ((some key, d) :: members, rest) := by
  induction members generalizing key d room with
  | nil =>
    simp only [memberChars, List.length_append, List.length_singleton] at hroom
    obtain ⟨room, rfl⟩ := Nat.exists_eq_add_of_lt hroom
    have hone := hd _ ('}' :: rest) (Nat.le_add_right _ room) (by simp [Closing])
    simpa [memberChars] using members?_close key hone
  | cons m members ih =>
    obtain ⟨name, e⟩ := m
    obtain ⟨hname, hnames⟩ := List.forall_mem_cons.mp hkeys
    obtain ⟨next, rfl⟩ := Option.isSome_iff_exists.mp hname
    obtain ⟨he, hparts⟩ := List.forall_mem_cons.mp hparts
    simp only [memberChars, List.length_append, List.length_cons] at hroom
    obtain ⟨room, rfl⟩ : ∃ n, room = n + 1 := ⟨room - 1, by omega⟩
    have hone := hd room (',' :: (quote (some next) ++ ':' :: (e.chars ++ memberChars members ++
      rest))) (by omega) (by simp [Closing])
    have hmore : members? (room + 1) (quote (some next) ++ ':' :: (e.chars ++
        memberChars members ++ rest)) = some ((some next, e) :: members, rest) := by
      apply ih next he hnames hparts
      simp only [List.length_append]
      omega
    simpa [memberChars] using members?_comma key hone hmore

theorem Plain.readBack (h : Plain d) : ReadBack d := by
  induction h with
  | null =>
    intro room rest _ _
    simp [value?, chars, skip_cons (show isBlank 'n' = false from rfl)]
  | bool b =>
    intro room rest _ _
    cases b with
    | true => simp [value?, chars, skip_cons (show isBlank 't' = false from rfl)]
    | false => simp [value?, chars, skip_cons (show isBlank 'f' = false from rfl)]
  | int n fits =>
    intro room rest _ hrest
    obtain ⟨c, cs, hcs, hc⟩ := chars_ofInt_head n
    have hread := numeral?_ofInt n hrest
    rw [hcs, List.cons_append] at hread
    rw [Document.int, chars, hcs, List.cons_append, value?_numeral hc, hread]
    rfl
  | string s =>
    intro room rest _ _
    simp [value?, Document.string, chars, quote, skip_cons (show isBlank '"' = false from rfl),
      text?_quote]
  | @array ds items ih =>
    intro room rest hroom _
    cases ds with
    | nil =>
      simp [value?, chars, skip_cons (show isBlank '[' = false from rfl),
        skip_cons (show isBlank ']' = false from rfl)]
    | cons d ds =>
      obtain ⟨hd, hds⟩ := List.forall_mem_cons.mp ih
      simp only [chars, List.length_cons] at hroom
      obtain ⟨room, rfl⟩ : ∃ n, room = n + 1 := ⟨room - 1, by omega⟩
      have hitems := items?_chars hd hds rest (Nat.le_of_succ_le_succ hroom)
      obtain ⟨c, cs, hcs, hblank, hclose⟩ := (items d List.mem_cons_self).chars_head
      simp only [chars, hcs, List.cons_append] at hitems ⊢
      rw [value?_items hblank hclose, hitems]
      rfl
  | @object members keys parts ih =>
    intro room rest hroom _
    cases members with
    | nil =>
      simp [value?, chars, skip_cons (show isBlank '{' = false from rfl),
        skip_cons (show isBlank '}' = false from rfl)]
    | cons m members =>
      obtain ⟨name, d⟩ := m
      obtain ⟨hname, hnames⟩ := List.forall_mem_cons.mp keys
      obtain ⟨key, rfl⟩ := Option.isSome_iff_exists.mp hname
      obtain ⟨hd, hds⟩ := List.forall_mem_cons.mp ih
      simp only [chars, List.length_cons, List.length_append] at hroom
      obtain ⟨room, rfl⟩ : ∃ n, room = n + 1 := ⟨room - 1, by omega⟩
      have hmembers := members?_chars key hd hnames hds rest (show _ ≤ room by simp; omega)
      simp only [chars, quote, List.cons_append, List.append_assoc] at hmembers ⊢
      rw [value?_members (by decide) (by decide), hmembers]
      rfl

/-- The text of a plain document holds that document. -/
theorem parse_render (h : Plain d) : parse d.render = some d := by
  have hread := h.readBack d.chars.length [] (Nat.le_refl _) (by simp [Closing])
  rw [List.append_nil] at hread
  rw [parse, render, String.toList_ofList, hread]
  rfl

end Flowgraph.Document
