import PartLib.Lib.CString
import Mathlib.Data.Stream.Init

/-!
# The broker URL from the console

With `CONFIG_BROKER_URL_FROM_STDIN`, `mqtt_app_start` reads the URL of the broker from `stdin` into an
array on its stack. What `fgetc` returns, one call after another, is a stream of integers: characters,
bytes that are not ASCII, and negative numbers where nothing could be read.

The loop ends at a newline, where it stores the null character, or when the array is full, where it
does not. So the array holds the line exactly when fewer characters than the array has bytes come
before the newline (`holdsLine_iff`).
-/

namespace PartLib.Mqtt

/-- The size of `line`. -/
def lineSize : ℕ := 128

/-- `'\n'`. -/
def newlineChar : ℤ := 10

/-- `c > 0 && c < 127`. -/
def IsStored (c : ℤ) : Prop := 0 < c ∧ c < 127

instance : DecidablePred IsStored := fun _ => inferInstanceAs (Decidable (_ ∧ _))

/-- An `int` as it is stored in a `char`. -/
def charOf (c : ℤ) : UInt8 := UInt8.ofNat c.toNat

/-- The array after the loop, and the indices that were written, in order. -/
structure LineRead where
  line : List UInt8
  written : List ℕ
  deriving DecidableEq

/-- The loop of `mqtt_app_start`, with `line` and `count`. It has no result when it has not ended after
so many passes. -/
def readLoop : ℕ → List UInt8 → ℕ → Stream' ℤ → Option LineRead
  | 0, _, _, _ => none
  | passes + 1, line, count, stdin =>
    if count < lineSize then
      let c := stdin.head
      if c = newlineChar then some ⟨line.set count 0, [count]⟩
      else if IsStored c then
        (readLoop passes (line.set count (charOf c)) (count + 1) stdin.tail).map fun r =>
          { r with written := count :: r.written }
      else readLoop passes line count stdin.tail
    else
      -- The array is full, and nothing is written behind its last character.
      some ⟨line, []⟩

/-- Where `mqtt_app_start` takes the URL from. -/
inductive UriSource
  | line (r : LineRead)
  | aborts
  deriving DecidableEq

/-- The part of `mqtt_app_start` under `CONFIG_BROKER_URL_FROM_STDIN`: `line` is not initialised. -/
def readUrl (config_broker_url : String) (passes : ℕ) (line : List UInt8) (stdin : Stream' ℤ) :
    Option UriSource :=
  if config_broker_url = "FROM_STDIN" then (readLoop passes line 0 stdin).map .line
  else some .aborts

/-! ## The line that is typed -/

/-- The characters that are kept of what `fgetc` returns. -/
def keptChars (cs : List ℤ) : List UInt8 := (cs.filter (IsStored ·)).map charOf

/-- The line: the characters that are kept of those before the first newline. -/
def typed (cs : List ℤ) : List UInt8 := keptChars (cs.takeWhile (· ≠ newlineChar))

/-- The string is the line that the stream gives, cut to the size of the array less one. -/
def IsLine (stdin : Stream' ℤ) (s : List UInt8) : Prop :=
  ∃ n, ∀ m, n ≤ m → s = (typed (stdin.take m)).take (lineSize - 1)

/-- The array holds the line, and no byte outside it was written. -/
structure HoldsLine (stdin : Stream' ℤ) (r : LineRead) : Prop where
  length : r.line.length = lineSize
  written : ∀ k ∈ r.written, k < lineSize
  string : ∃ s, cstr r.line = some s ∧ IsLine stdin s

/-- A character that is kept is not the null character. -/
theorem charOf_ne_zero {c : ℤ} (h : IsStored c) : charOf c ≠ 0 := by
  obtain ⟨hpos, hlt⟩ := h
  intro hzero
  have hnat : (charOf c).toNat = 0 := by rw [hzero]; rfl
  rw [charOf, UInt8.toNat_ofNat'] at hnat
  omega

/-- A line has no null character. -/
theorem zero_notMem_keptChars (cs : List ℤ) : 0 ∉ keptChars cs := by
  intro hmem
  obtain ⟨c, hc, hzero⟩ := List.mem_map.mp hmem
  exact charOf_ne_zero (by simpa using (List.mem_filter.mp hc).2) hzero

/-- A character more is kept or not. -/
theorem keptChars_cons (c : ℤ) (cs : List ℤ) :
    keptChars (c :: cs) = if IsStored c then charOf c :: keptChars cs else keptChars cs := by
  by_cases h : IsStored c <;> simp [keptChars, h]

/-- Before a newline all characters count. -/
theorem typed_of_forall_ne {cs : List ℤ} (h : ∀ c ∈ cs, c ≠ newlineChar) :
    typed cs = keptChars cs := by
  rw [typed, List.takeWhile_eq_self_iff.mpr (by simpa using h)]

/-- From the newline on no character counts. -/
theorem typed_append_newline {cs : List ℤ} (h : ∀ c ∈ cs, c ≠ newlineChar) (later : List ℤ) :
    typed (cs ++ newlineChar :: later) = keptChars cs := by
  rw [typed, List.takeWhile_append_of_pos (by simpa using h), List.takeWhile_cons_of_neg (by simp),
    List.append_nil]

/-- With more input the line gets no shorter. -/
theorem length_typed_le (cs later : List ℤ) : (typed cs).length ≤ (typed (cs ++ later)).length := by
  rw [typed, typed, List.takeWhile_append]
  split_ifs with hall
  · rw [List.takeWhile_eq_self_iff.mpr]
    · simp [keptChars]
    · exact List.takeWhile_eq_self_iff.mp ((List.takeWhile_prefix _).eq_of_length hall)
  · exact le_rfl

variable {stdin : Stream' ℤ} {k n : ℕ}

/-- What is read later comes behind what is read. -/
theorem exists_take_eq_append (stdin : Stream' ℤ) (h : k ≤ n) :
    ∃ later, stdin.take n = stdin.take k ++ later := by
  obtain ⟨later, hlater⟩ : stdin.take k <+: stdin.take n := by
    have htake := List.take_prefix k (stdin.take n)
    rwa [Stream'.take_take, Nat.min_eq_right h] at htake
  exact ⟨later, hlater.symm⟩

/-- The line that ends with the newline read as number `k`. -/
theorem typed_take_of_lt (hne : ∀ c ∈ stdin.take k, c ≠ newlineChar)
    (hnl : stdin.get k = newlineChar) (h : k < n) :
    typed (stdin.take n) = keptChars (stdin.take k) := by
  obtain ⟨later, hlater⟩ := exists_take_eq_append stdin (Nat.succ_le_of_lt h)
  rw [hlater, Stream'.take_succ', hnl, List.append_assoc, List.singleton_append]
  exact typed_append_newline hne later

/-- No part of the line is longer than the line. -/
theorem length_typed_take_le (hne : ∀ c ∈ stdin.take k, c ≠ newlineChar)
    (hnl : stdin.get k = newlineChar) (n : ℕ) :
    (typed (stdin.take n)).length ≤ (keptChars (stdin.take k)).length := by
  have hlast := typed_take_of_lt hne hnl (Nat.lt_succ_of_le (Nat.le_max_right n k))
  obtain ⟨later, hlater⟩ :=
    exists_take_eq_append stdin ((Nat.le_max_left n k).trans (Nat.le_succ _))
  rw [← hlast, hlater]
  exact length_typed_le _ later

/-! ## The loop -/

variable {passes count : ℕ} {line : List UInt8} {r : LineRead}

/-- Where the loop has ended: it has read `k` characters, none of them a newline, and the next one is a
newline or the array is full. -/
structure EndsAt (line : List UInt8) (count : ℕ) (stdin : Stream' ℤ) (r : LineRead) (k : ℕ) :
    Prop where
  before : ∀ c ∈ stdin.take k, c ≠ newlineChar
  length : r.line.length = lineSize
  written : ∀ i ∈ r.written, i < lineSize
  line_eq :
    (stdin.get k = newlineChar ∧ count + (keptChars (stdin.take k)).length < lineSize ∧
      ∃ rest, r.line = line.take count ++ keptChars (stdin.take k) ++ 0 :: rest) ∨
    (count + (keptChars (stdin.take k)).length = lineSize ∧
      r.line = line.take count ++ keptChars (stdin.take k))

/-- The loop stores the characters that it keeps one after another. -/
theorem readLoop_spec (hline : line.length = lineSize) (hcount : count ≤ lineSize)
    (h : readLoop passes line count stdin = some r) : ∃ k, EndsAt line count stdin r k := by
  induction passes generalizing line count stdin r with
  | zero => cases h
  | succ passes ih =>
    simp only [readLoop] at h
    split_ifs at h with hlt hnl hstored
    · -- The newline: the terminator is behind the characters stored so far.
      cases h
      refine ⟨0, by simp, by simpa using hline, by simpa using hlt, .inl ⟨hnl, ?_, ?_⟩⟩
      · simpa [keptChars] using hlt
      · refine ⟨line.drop (count + 1), ?_⟩
        rw [List.set_eq_take_append_cons_drop, if_pos (by omega)]
        simp [keptChars]
    · -- A character that is stored extends what is written.
      obtain ⟨r', hr', rfl⟩ := Option.map_eq_some_iff.mp h
      obtain ⟨k, hends⟩ := ih (by rwa [List.length_set]) hlt hr'
      have hkept : keptChars (stdin.take (k + 1)) =
          charOf stdin.head :: keptChars (stdin.tail.take k) := by
        rw [Stream'.take_succ, keptChars_cons, if_pos hstored]
      have hset : (line.set count (charOf stdin.head)).take (count + 1) =
          line.take count ++ [charOf stdin.head] := take_set_succ (by omega) _
      refine ⟨k + 1, ?_, hends.length, ?_, ?_⟩
      · rw [Stream'.take_succ, List.forall_mem_cons]
        exact ⟨hnl, hends.before⟩
      · exact List.forall_mem_cons.mpr ⟨hlt, hends.written⟩
      · rw [hkept, List.length_cons, ← Nat.add_assoc, Nat.add_right_comm]
        have hline_eq := hends.line_eq
        rw [hset] at hline_eq
        simpa using hline_eq
    · -- Another character leaves the array as it is.
      obtain ⟨k, hends⟩ := ih hline hcount h
      have hkept : keptChars (stdin.take (k + 1)) = keptChars (stdin.tail.take k) := by
        rw [Stream'.take_succ, keptChars_cons, if_neg hstored]
      refine ⟨k + 1, ?_, hends.length, hends.written, ?_⟩
      · rw [Stream'.take_succ, List.forall_mem_cons]
        exact ⟨hnl, hends.before⟩
      · rw [hkept]
        exact hends.line_eq
    · -- The array is full.
      cases h
      refine ⟨0, by simp, hline, by simp, .inr ⟨?_, ?_⟩⟩
      · simp only [Stream'.take_zero, keptChars, List.filter_nil, List.map_nil, List.length_nil]
        omega
      · rw [List.take_of_length_le (by omega)]
        simp [keptChars]

/-- The loop ends at a newline, or when it has kept as many characters as the array has bytes. -/
theorem readLoop_ends (line : List UInt8)
    (h : stdin.get k = newlineChar ∨ lineSize ≤ count + (keptChars (stdin.take k)).length) :
    (readLoop (k + 1) line count stdin).isSome = true := by
  induction k generalizing line count stdin with
  | zero =>
    simp only [readLoop]
    split_ifs with hlt hnl hstored
    · rfl
    -- Nothing is kept yet, so the loop goes on only when the array is not full.
    · have hfull := h.resolve_left hnl
      simp [keptChars] at hfull
      omega
    · have hfull := h.resolve_left hnl
      simp [keptChars] at hfull
      omega
    · rfl
  | succ k ih =>
    rw [Stream'.take_succ, keptChars_cons] at h
    rw [readLoop]
    simp only
    split_ifs with hlt hnl hstored
    · rfl
    · rw [Option.isSome_map]
      refine ih _ (h.imp id fun hfull => ?_)
      rw [if_pos hstored, List.length_cons] at hfull
      omega
    · rw [if_neg hstored] at h
      exact ih _ h
    · rfl

/-- The loop ends, sooner or later, exactly when a newline or enough characters come. -/
theorem readLoop_ends_iff (hline : line.length = lineSize) :
    (∃ passes, (readLoop passes line 0 stdin).isSome = true) ↔
      (∃ k, stdin.get k = newlineChar) ∨ ∃ n, lineSize ≤ (typed (stdin.take n)).length := by
  constructor
  · rintro ⟨passes, h⟩
    obtain ⟨r, hr⟩ := Option.isSome_iff_exists.mp h
    obtain ⟨k, hends⟩ := readLoop_spec hline (Nat.zero_le _) hr
    rcases hends.line_eq with ⟨hnl, -, -⟩ | ⟨hfull, -⟩
    · exact .inl ⟨k, hnl⟩
    · refine .inr ⟨k, ?_⟩
      rw [typed_of_forall_ne hends.before]
      omega
  · rintro (⟨k, hnl⟩ | ⟨n, hfull⟩)
    · exact ⟨k + 1, readLoop_ends line (.inl hnl)⟩
    · refine ⟨n + 1, readLoop_ends line (.inr ?_)⟩
      have hle : (typed (stdin.take n)).length ≤ (keptChars (stdin.take n)).length :=
        (((List.takeWhile_prefix _).sublist.filter _).map _).length_le
      omega

/-- When the reading loop exits, no byte outside the array was written, and the array holds the line,
cut to 127 characters, if and only if fewer than 128 characters of the line are kept. -/
theorem holdsLine_iff (config_broker_url : String) (passes : ℕ) (line : List UInt8)
    (stdin : Stream' ℤ) (r : LineRead) (hline : line.length = lineSize)
    (h : readUrl config_broker_url passes line stdin = some (.line r)) :
    HoldsLine stdin r ↔ ∀ n, (typed (stdin.take n)).length < lineSize := by
  have hloop : readLoop passes line 0 stdin = some r := by
    unfold readUrl at h
    split_ifs at h
    · simpa using h
    · cases h
  obtain ⟨k, hends⟩ := readLoop_spec hline (Nat.zero_le _) hloop
  have hzero := zero_notMem_keptChars (stdin.take k)
  rcases hends.line_eq with ⟨hnl, hlt, rest, heq⟩ | ⟨hfull, heq⟩
  · -- The loop has ended at the newline.
    rw [Nat.zero_add] at hlt
    have hshort : ∀ n, (typed (stdin.take n)).length < lineSize := fun n =>
      (length_typed_take_le hends.before hnl n).trans_lt hlt
    refine iff_of_true ⟨hends.length, hends.written, keptChars (stdin.take k), ?_, k + 1, ?_⟩ hshort
    · rw [heq]
      exact cstr_append hzero
    · intro m hm
      rw [typed_take_of_lt hends.before hnl hm, List.take_of_length_le (Nat.le_sub_one_of_lt hlt)]
  · -- The array is full: it has no null character, and the line has as many characters.
    rw [Nat.zero_add] at hfull
    refine iff_of_false ?_ ?_
    · rintro ⟨-, -, s, hs, -⟩
      rw [heq, List.take_zero, List.nil_append, cstr, if_neg hzero] at hs
      cases hs
    · intro hshort
      have hlt := hshort k
      rw [typed_of_forall_ne hends.before, hfull] at hlt
      exact lt_irrefl _ hlt

/-- A read error, two characters with a byte between them that is not ASCII, and a newline. -/
def twoCharacters : Stream' ℤ := [-1, 104, 200, 105, 10] ++ₛ Stream'.const (-1)

/-- The two characters are held. -/
theorem holdsLine_two_characters :
    readUrl "FROM_STDIN" 5 (List.replicate 128 0xa5) twoCharacters =
        some (.line ⟨104 :: 105 :: 0 :: List.replicate 125 0xa5, [0, 1, 2]⟩) ∧
      HoldsLine twoCharacters ⟨104 :: 105 :: 0 :: List.replicate 125 0xa5, [0, 1, 2]⟩ := by
  have hread : readUrl "FROM_STDIN" 5 (List.replicate 128 0xa5) twoCharacters =
      some (.line ⟨104 :: 105 :: 0 :: List.replicate 125 0xa5, [0, 1, 2]⟩) := by
    decide +kernel
  refine ⟨hread, (holdsLine_iff _ _ _ _ _ (List.length_replicate ..) hread).mpr fun n => ?_⟩
  have hnl : twoCharacters.get 4 = newlineChar := rfl
  exact (length_typed_take_le (by decide) hnl n).trans_lt (by decide)

/-- When 128 characters come before the newline, the array holds no string. -/
theorem full_line_not_held :
    ¬ ∀ config_broker_url passes line stdin r, line.length = lineSize →
      readUrl config_broker_url passes line stdin = some (.line r) → HoldsLine stdin r := by
  intro h
  obtain ⟨-, -, s, hs, -⟩ := h "FROM_STDIN" 129 (List.replicate 128 0)
    (List.replicate 128 97 ++ₛ Stream'.const 10) ⟨List.replicate 128 97, List.range 128⟩
    (List.length_replicate ..) (by decide +kernel)
  have hnone : cstr (List.replicate 128 97) = none := by decide +kernel
  rw [hnone] at hs
  cases hs

end PartLib.Mqtt
