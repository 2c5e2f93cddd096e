import Mathlib.Data.List.Basic

/-!
# Flat objects of strings

`objectText` writes members, each a key and a value, as the text of a JSON object, with no escapes;
`readObject` reads such an object, and accepts nothing else. A text is read as some members if and
only if it is the text of these, there is at least one, and no character of theirs would have to be
escaped (`readObject_eq_some`). So what was written is read back, and a text that is cut short is
refused.
-/

namespace PartLib

/-- The bytes of a text of ASCII characters. -/
def ascii (s : String) : List UInt8 := s.toList.map fun c => UInt8.ofNat c.toNat

/-- The character `"`. -/
def quote : UInt8 := 0x22

/-- The character `\`. -/
def backslash : UInt8 := 0x5c

/-- The character `:`. -/
def colon : UInt8 := 0x3a

/-- The character `,`. -/
def comma : UInt8 := 0x2c

/-- The character that opens an object. -/
def openBrace : UInt8 := 0x7b

/-- The character that closes an object. -/
def closeBrace : UInt8 := 0x7d

/-- A member of an object. -/
structure Member where
  key : List UInt8
  value : List UInt8
  deriving DecidableEq

/-- A string between its quotation marks. -/
def quoted (s : List UInt8) : List UInt8 := quote :: s ++ [quote]

/-- A member, as it is written. -/
def Member.text (m : Member) : List UInt8 := quoted m.key ++ colon :: quoted m.value

/-- Members with a comma between any two, and the brace behind the last. -/
def membersText : List Member → List UInt8
  | [] => [closeBrace]
  | [m] => m.text ++ [closeBrace]
  | m :: ms => m.text ++ comma :: membersText ms

/-- An object, as it is written. -/
def objectText (ms : List Member) : List UInt8 := openBrace :: membersText ms

/-- A character that stands for itself between quotation marks. -/
def IsPlain (c : UInt8) : Prop := 0x20 ≤ c ∧ c ≠ quote ∧ c ≠ backslash

instance : DecidablePred IsPlain := fun _ => inferInstanceAs (Decidable (_ ∧ _ ∧ _))

/-- No character has to be escaped. -/
def Member.IsPlain (m : Member) : Prop :=
  (∀ c ∈ m.key, PartLib.IsPlain c) ∧ ∀ c ∈ m.value, PartLib.IsPlain c

-- Decided along the texts, and not over all the values of a byte.
instance : DecidablePred Member.IsPlain := fun m =>
  @instDecidableAnd _ _ (List.decidableBAll _ m.key) (List.decidableBAll _ m.value)

/-! ## Reading -/

/-- The given character. -/
def expect (c : UInt8) : List UInt8 → Option (List UInt8)
  | d :: s => if d = c then some s else none
  | [] => none

/-- The rest of a string, up to its closing quotation mark, and what follows. -/
def readChars : List UInt8 → Option (List UInt8 × List UInt8)
  | [] => none
  | c :: s =>
    if c = quote then some ([], s)
    else if IsPlain c then (readChars s).map fun r => (c :: r.1, r.2)
    else none

/-- A string. -/
def readString (s : List UInt8) : Option (List UInt8 × List UInt8) := (expect quote s).bind readChars

/-- A member. -/
def readMember (s : List UInt8) : Option (Member × List UInt8) :=
  (readString s).bind fun k => (expect colon k.2).bind fun s =>
    (readString s).map fun v => (⟨k.1, v.1⟩, v.2)

/-- The members, up to the end of the object, which is the end of the text; at most `fuel` of them. -/
def readMembers : ℕ → List UInt8 → Option (List Member)
  | 0, _ => none
  | fuel + 1, s =>
    (readMember s).bind fun r =>
      if r.2 = [closeBrace] then some [r.1]
      else ((expect comma r.2).bind (readMembers fuel)).map (r.1 :: ·)

/-- An object that is the whole text. -/
def readObject (s : List UInt8) : Option (List Member) :=
  (expect openBrace s).bind fun s => readMembers s.length s

variable {c : UInt8} {s r v : List UInt8} {m : Member} {ms : List Member}

theorem expect_eq_some : expect c s = some r ↔ s = c :: r := by
  unfold expect
  cases s with
  | nil => simp
  | cons d s =>
    by_cases hd : d = c
    · simp [hd]
    · simp [hd]

/-- The end of a string is its closing quotation mark. -/
theorem readChars_eq_some : readChars s = some (v, r) ↔ (∀ c ∈ v, IsPlain c) ∧ s = v ++ quote :: r := by
  induction s generalizing v with
  | nil => simp [readChars]
  | cons c s ih =>
    unfold readChars
    by_cases hquote : c = quote
    · subst hquote
      rw [if_pos rfl]
      cases v with
      | nil => simp [eq_comm]
      | cons d v =>
        have hplain : ¬ IsPlain quote := by decide
        simp only [Option.some.injEq, Prod.mk.injEq, List.nil_eq, reduceCtorEq, false_and, List.mem_cons,
          forall_eq_or_imp, List.cons_append, List.cons.injEq, false_iff]
        rintro ⟨⟨hd, -⟩, rfl, -⟩
        exact hplain hd
    · rw [if_neg hquote]
      cases v with
      | nil =>
        have hne : ¬ c :: s = [] ++ quote :: r := fun h => hquote (List.cons.inj h).1
        split_ifs
        · simp [hquote]
        · simp [hquote]
      | cons d v =>
        by_cases hplain : IsPlain c
        · rw [if_pos hplain, Option.map_eq_some_iff]
          constructor
          · rintro ⟨⟨v', r'⟩, hread, he⟩
            cases he
            obtain ⟨hv, rfl⟩ := ih.mp hread
            exact ⟨List.forall_mem_cons.mpr ⟨hplain, hv⟩, rfl⟩
          · rintro ⟨hv, heq⟩
            obtain ⟨rfl, rfl⟩ := List.cons.inj heq
            exact ⟨(v, r), ih.mpr ⟨(List.forall_mem_cons.mp hv).2, rfl⟩, rfl⟩
        · rw [if_neg hplain]
          simp only [reduceCtorEq, false_iff, List.forall_mem_cons, List.cons_append, List.cons.injEq]
          rintro ⟨⟨hd, -⟩, rfl, -⟩
          exact hplain hd

theorem readString_eq_some :
    readString s = some (v, r) ↔ (∀ c ∈ v, IsPlain c) ∧ s = quoted v ++ r := by
  unfold readString
  rw [Option.bind_eq_some_iff]
  constructor
  · rintro ⟨s', hexpect, hread⟩
    obtain rfl := expect_eq_some.mp hexpect
    obtain ⟨hv, rfl⟩ := readChars_eq_some.mp hread
    exact ⟨hv, by simp [quoted]⟩
  · rintro ⟨hv, rfl⟩
    exact ⟨v ++ quote :: r, expect_eq_some.mpr (by simp [quoted]), readChars_eq_some.mpr ⟨hv, rfl⟩⟩

theorem readMember_eq_some : readMember s = some (m, r) ↔ m.IsPlain ∧ s = m.text ++ r := by
  unfold readMember
  constructor
  · intro h
    obtain ⟨⟨k, s₁⟩, hkey, h⟩ := Option.bind_eq_some_iff.mp h
    obtain ⟨s₂, hcolon, h⟩ := Option.bind_eq_some_iff.mp h
    obtain ⟨⟨v, s₃⟩, hvalue, he⟩ := Option.map_eq_some_iff.mp h
    cases he
    obtain ⟨hk, rfl⟩ := readString_eq_some.mp hkey
    obtain rfl := expect_eq_some.mp hcolon
    obtain ⟨hv, rfl⟩ := readString_eq_some.mp hvalue
    exact ⟨⟨hk, hv⟩, by simp [Member.text]⟩
  · rintro ⟨⟨hk, hv⟩, rfl⟩
    have hkey : readString (m.text ++ r) = some (m.key, colon :: (quoted m.value ++ r)) :=
      readString_eq_some.mpr ⟨hk, by simp [Member.text]⟩
    have hvalue : readString (quoted m.value ++ r) = some (m.value, r) :=
      readString_eq_some.mpr ⟨hv, rfl⟩
    rw [hkey, Option.bind_some, expect_eq_some.mpr rfl, Option.bind_some, hvalue]
    rfl

/-- The text of a member, which is not empty, is behind the comma. -/
theorem readMembers_eq_some {fuel : ℕ} : readMembers fuel s = some ms ↔
    ms ≠ [] ∧ ms.length ≤ fuel ∧ (∀ m ∈ ms, m.IsPlain) ∧ s = membersText ms := by
  induction fuel generalizing s ms with
  | zero =>
    simp only [readMembers, reduceCtorEq, false_iff]
    rintro ⟨hne, hlen, -⟩
    exact hne (List.eq_nil_of_length_eq_zero (Nat.le_zero.mp hlen))
  | succ fuel ih =>
    unfold readMembers
    rw [Option.bind_eq_some_iff]
    constructor
    · rintro ⟨⟨m, r⟩, hmember, h⟩
      obtain ⟨hm, rfl⟩ := readMember_eq_some.mp hmember
      dsimp only at h
      split_ifs at h with hend
      · cases h
        subst hend
        exact ⟨by simp, by simp, by simpa using hm, rfl⟩
      · obtain ⟨ms', hrest, rfl⟩ := Option.map_eq_some_iff.mp h
        obtain ⟨s', hcomma, hread⟩ := Option.bind_eq_some_iff.mp hrest
        obtain rfl := expect_eq_some.mp hcomma
        obtain ⟨hne, hlen, hplain, rfl⟩ := ih.mp hread
        refine ⟨by simp, by simpa using hlen, List.forall_mem_cons.mpr ⟨hm, hplain⟩, ?_⟩
        cases ms' with
        | nil => exact absurd rfl hne
        | cons m' ms' => rfl
    · rintro ⟨hne, hlen, hplain, rfl⟩
      cases ms with
      | nil => exact absurd rfl hne
      | cons m ms =>
        obtain ⟨hm, hms⟩ := List.forall_mem_cons.mp hplain
        cases ms with
        | nil =>
          exact ⟨(m, [closeBrace]), readMember_eq_some.mpr ⟨hm, rfl⟩, if_pos rfl⟩
        | cons m' ms =>
          refine ⟨(m, comma :: membersText (m' :: ms)), readMember_eq_some.mpr ⟨hm, rfl⟩, ?_⟩
          have hread : readMembers fuel (membersText (m' :: ms)) = some (m' :: ms) :=
            ih.mpr ⟨by simp, by simpa using hlen, hms, rfl⟩
          have hcomma : ¬ comma :: membersText (m' :: ms) = [closeBrace] := by
            intro h
            exact absurd (List.cons.inj h).1 (by decide)
          dsimp only
          rw [if_neg hcomma, expect_eq_some.mpr rfl, Option.bind_some, hread]
          rfl

/-- There are no more members than characters. -/
theorem length_le_membersText : ∀ ms : List Member, ms.length ≤ (membersText ms).length
  | [] => Nat.zero_le _
  | [m] => by simp [membersText]
  | m :: m' :: ms => by
    have ih := length_le_membersText (m' :: ms)
    simp only [membersText, List.length_append, List.length_cons] at ih ⊢
    omega

/-- A text is read as some members if and only if it is written from them, there is at least one, and
no character of theirs has to be escaped. -/
theorem readObject_eq_some :
    readObject s = some ms ↔ ms ≠ [] ∧ (∀ m ∈ ms, m.IsPlain) ∧ s = objectText ms := by
  unfold readObject
  rw [Option.bind_eq_some_iff]
  constructor
  · rintro ⟨s', hopen, hread⟩
    obtain rfl := expect_eq_some.mp hopen
    obtain ⟨hne, -, hplain, rfl⟩ := readMembers_eq_some.mp hread
    exact ⟨hne, hplain, rfl⟩
  · rintro ⟨hne, hplain, rfl⟩
    exact ⟨membersText ms, expect_eq_some.mpr rfl,
      readMembers_eq_some.mpr ⟨hne, length_le_membersText ms, hplain, rfl⟩⟩

/-- Members whose text is the beginning of that of other members are these. -/
theorem eq_of_isPrefix_membersText {ms' : List Member} (hms : ∀ m ∈ ms, m.IsPlain)
    (hms' : ∀ m ∈ ms', m.IsPlain) (hne : ms ≠ []) (hne' : ms' ≠ [])
    (h : membersText ms' <+: membersText ms) : ms' = ms := by
  induction ms generalizing ms' with
  | nil => exact absurd rfl hne
  | cons m ms ih =>
    cases ms' with
    | nil => exact absurd rfl hne'
    | cons m' ms' =>
      obtain ⟨hm, htail⟩ := List.forall_mem_cons.mp hms
      obtain ⟨hm', htail'⟩ := List.forall_mem_cons.mp hms'
      obtain ⟨more, h⟩ := h
      have hsplit : ∀ (n : Member) (ns : List Member), ∃ r, membersText (n :: ns) = n.text ++ r ∧
          (ns = [] → r = [closeBrace]) ∧ (ns ≠ [] → r = comma :: membersText ns) := by
        intro n ns
        cases ns with
        | nil => exact ⟨[closeBrace], rfl, fun _ => rfl, fun h => absurd rfl h⟩
        | cons n' ns => exact ⟨_, rfl, fun h => by simp at h, fun _ => rfl⟩
      obtain ⟨r, hr, hend, hgoes⟩ := hsplit m ms
      obtain ⟨r', hr', hend', hgoes'⟩ := hsplit m' ms'
      rw [hr, hr', List.append_assoc] at h
      -- The first member is the same, since both are read from the same text.
      have hread : readMember (m.text ++ r) = some (m, r) := readMember_eq_some.mpr ⟨hm, rfl⟩
      rw [← h, readMember_eq_some.mpr ⟨hm', rfl⟩] at hread
      simp only [Option.some.injEq, Prod.mk.injEq] at hread
      obtain ⟨rfl, hrest⟩ := hread
      have hbrace : closeBrace ≠ comma := by decide
      by_cases hnil : ms = []
      · by_cases hnil' : ms' = []
        · rw [hnil, hnil']
        · rw [hgoes' hnil', hend hnil] at hrest
          exact absurd (List.cons.inj hrest).1.symm hbrace
      · by_cases hnil' : ms' = []
        · rw [hend' hnil', hgoes hnil] at hrest
          exact absurd (List.cons.inj hrest).1 hbrace
        · rw [hgoes' hnil', hgoes hnil] at hrest
          rw [ih htail htail' hnil hnil' ⟨more, (List.cons.inj hrest).2⟩]

/-- A text that is cut short is refused. -/
theorem readObject_eq_none (hne : ms ≠ []) (hms : ∀ m ∈ ms, m.IsPlain) (h : s <+: objectText ms)
    (hcut : s ≠ objectText ms) : readObject s = none := by
  cases hread : readObject s with
  | none => rfl
  | some ms' =>
    obtain ⟨hne', hms', rfl⟩ := readObject_eq_some.mp hread
    refine absurd ?_ hcut
    rw [eq_of_isPrefix_membersText hms hms' hne hne' (List.cons_prefix_cons.mp h).2]

end PartLib
