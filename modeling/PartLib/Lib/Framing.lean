import Mathlib.Data.List.Infix

/-!
# Framing without escapes

A sender passes some values on as they are, and cuts the others into parts, which look like values
themselves. A `Framing` says that the parts of a value tell where they end, and that a later part is
not mistaken for a first one. There is no escape for values that look like parts, so a receiver
cannot always tell a value from its parts (`Framing.flatMap_frames_parts`). But that is the only
confusion: among the sequences that contain no value's parts as consecutive values, the frames
determine the values (`Framing.flatMap_frames_injective`).
-/

namespace PartLib

/-- A framing of the valid values of a type. -/
structure Framing (α : Type*) where
  Valid : α → Prop
  /-- The value is sent as it is. -/
  Whole : α → Prop
  decWhole : DecidablePred Whole
  /-- The parts of a value that is not. -/
  parts : α → List α
  parts_ne_nil : ∀ x, Valid x → ¬ Whole x → parts x ≠ []
  whole_of_mem_parts : ∀ x, Valid x → ¬ Whole x → ∀ p ∈ parts x, Whole p
  delimited : ∀ x y r₁ r₂, Valid x → Valid y → ¬ Whole x → ¬ Whole y →
    parts x ++ r₁ = parts y ++ r₂ → x = y
  later_ne_first : ∀ x y, Valid x → Valid y → ¬ Whole x → ¬ Whole y →
    ∀ p ∈ (parts x).tail, (parts y).head? ≠ some p

namespace Framing

variable {α : Type*} (F : Framing α)

instance : DecidablePred F.Whole := F.decWhole

/-- The frames of a value: itself, or its parts. -/
def frames (x : α) : List α := if F.Whole x then [x] else F.parts x

/-- No valid value's parts are consecutive values of the sequence. -/
def Plain (xs : List α) : Prop := ∀ x, F.Valid x → ¬ F.Whole x → ¬ F.parts x <:+: xs

variable {F}

/-- The end of a sequence without parts is one. -/
theorem Plain.of_isSuffix {xs ys : List α} (h : F.Plain ys) (hs : xs <:+ ys) : F.Plain xs :=
  fun x hx hw hp => h x hx hw (hp.trans hs.isInfix)

/-- Values whose frames start with later parts start with these parts. -/
theorem isPrefix_of_flatMap_frames {ps : List α}
    (hps : ∀ p ∈ ps, ∀ y, F.Valid y → ¬ F.Whole y → (F.parts y).head? ≠ some p) {r : List α} :
    ∀ {ys : List α}, (∀ y ∈ ys, F.Valid y) → ys.flatMap F.frames = ps ++ r → ps <+: ys := by
  induction ps with
  | nil =>
    intro ys _ _
    exact List.nil_prefix
  | cons p ps ih =>
    intro ys hys h
    cases ys with
    | nil => simp at h
    | cons y ys =>
      have hy := hys y List.mem_cons_self
      rw [List.flatMap_cons, frames] at h
      split_ifs at h with hw
      · -- The value is sent as it is, so it is the part itself.
        simp only [List.cons_append, List.cons.injEq] at h
        obtain ⟨rfl, h⟩ := h
        have := ih (fun q hq => hps q (List.mem_cons_of_mem _ hq))
          (fun z hz => hys z (List.mem_cons_of_mem _ hz)) h
        exact List.cons_prefix_cons.mpr ⟨rfl, this⟩
      · -- The value is sent in parts, the first of which would be a later part.
        obtain ⟨q, qs, hq⟩ := List.exists_cons_of_ne_nil (F.parts_ne_nil y hy hw)
        rw [hq] at h
        simp only [List.cons_append, List.cons.injEq] at h
        exact absurd (by rw [hq, h.1]; rfl) (hps p List.mem_cons_self y hy hw)

/-- Where the frames of one sequence start with the parts of a value, and those of another with a
value sent as it is, the other contains the parts of that value. -/
theorem not_plain_of_parts {x y : α} {ys r : List α} (hx : F.Valid x) (hwx : ¬ F.Whole x)
    (hys : ∀ z ∈ ys, F.Valid z) (h : F.parts x ++ r = y :: ys.flatMap F.frames) :
    ¬ F.Plain (y :: ys) := by
  obtain ⟨p, ps, hp⟩ := List.exists_cons_of_ne_nil (F.parts_ne_nil x hx hwx)
  rw [hp] at h
  simp only [List.cons_append, List.cons.injEq] at h
  obtain ⟨rfl, h⟩ := h
  have hpre : ps <+: ys := isPrefix_of_flatMap_frames
    (fun q hq z hz hwz => F.later_ne_first x z hx hz hwx hwz q (by rw [hp]; exact hq)) hys h.symm
  intro hplain
  exact hplain x hx hwx (hp ▸ (List.cons_prefix_cons.mpr ⟨rfl, hpre⟩).isInfix)

/-- Two sequences of valid values that contain no value's parts, and have the same frames, are the
same. -/
theorem flatMap_frames_injective : ∀ {xs ys : List α}, (∀ x ∈ xs, F.Valid x) →
    (∀ y ∈ ys, F.Valid y) → F.Plain xs → F.Plain ys →
    xs.flatMap F.frames = ys.flatMap F.frames → xs = ys := by
  have hne : ∀ x, F.Valid x → F.frames x ≠ [] := by
    intro x hx
    rw [frames]
    split_ifs with hw
    · simp
    · exact F.parts_ne_nil x hx hw
  intro xs
  induction xs with
  | nil =>
    intro ys _ hys _ _ h
    cases ys with
    | nil => rfl
    | cons y ys =>
      rw [List.flatMap_nil, List.flatMap_cons] at h
      exact absurd (List.append_eq_nil_iff.mp h.symm).1 (hne y (hys y List.mem_cons_self))
  | cons x xs ih =>
    intro ys hxs hys hpx hpy h
    cases ys with
    | nil =>
      rw [List.flatMap_nil, List.flatMap_cons] at h
      exact absurd (List.append_eq_nil_iff.mp h).1 (hne x (hxs x List.mem_cons_self))
    | cons y ys =>
      have hx := hxs x List.mem_cons_self
      have hy := hys y List.mem_cons_self
      have hxs' : ∀ z ∈ xs, F.Valid z := fun z hz => hxs z (List.mem_cons_of_mem _ hz)
      have hys' : ∀ z ∈ ys, F.Valid z := fun z hz => hys z (List.mem_cons_of_mem _ hz)
      have htail := ih hxs' hys' (hpx.of_isSuffix (List.suffix_cons x xs))
        (hpy.of_isSuffix (List.suffix_cons y ys))
      rw [List.flatMap_cons, List.flatMap_cons] at h
      -- When one value is sent as it is, and the other in parts, these are values of the sequence.
      by_cases hwx : F.Whole x <;> by_cases hwy : F.Whole y
      · simp only [frames, if_pos hwx, if_pos hwy, List.singleton_append, List.cons.injEq] at h
        rw [h.1, htail h.2]
      · have h' : F.parts y ++ ys.flatMap F.frames = x :: xs.flatMap F.frames := by
          simpa [frames, hwx, hwy] using h.symm
        exact absurd hpx (not_plain_of_parts hy hwy hxs' h')
      · have h' : F.parts x ++ xs.flatMap F.frames = y :: ys.flatMap F.frames := by
          simpa [frames, hwx, hwy] using h
        exact absurd hpy (not_plain_of_parts hx hwx hys' h')
      · have hxy : x = y := F.delimited x y _ _ hx hy hwx hwy
          (by simpa [frames, hwx, hwy] using h)
        subst hxy
        rw [htail (List.append_cancel_left h)]

/-- A value and its parts, sent as values, have the same frames. -/
theorem flatMap_frames_parts {x : α} (hx : F.Valid x) (hw : ¬ F.Whole x) (xs ys : List α) :
    (xs ++ F.parts x ++ ys).flatMap F.frames = (xs ++ [x] ++ ys).flatMap F.frames := by
  have hparts : (F.parts x).flatMap F.frames = F.parts x := by
    have hself : ∀ p ∈ F.parts x, F.frames p = [p] := fun p hp =>
      if_pos (F.whole_of_mem_parts x hx hw p hp)
    rw [List.flatMap_congr hself, List.flatMap_singleton']
  rw [List.flatMap_append, List.flatMap_append, hparts, List.flatMap_append, List.flatMap_append,
    List.flatMap_singleton, frames, if_neg hw]

end Framing

end PartLib
