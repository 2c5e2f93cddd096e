import PartLib.Lib.Machine
import Mathlib.Tactic.SplitIfs

/-!
# The firmware of a device

What the updates are for, seen from outside: `firmwareStore` holds one image that is booted, an upload
replaces it as a whole, after the next restart, or not at all, and with rollback the image before comes
back unless the new one has been verified before the next restart. The store knows neither partitions
nor calls.

Whatever it is asked for, the store boots valid images only: the one that it had at first, and those
that it has been asked for (`store_boots`).
-/

namespace PartLib.Ota

/-! ## Firmware -/

/-- The firmware of a device, in images or in the partitions that hold them: an image that is booted for
good; an image beside a new one, which is booted next; or a new image that runs, beside the one that
comes back unless the new one is confirmed. -/
inductive Firmware (α : Type*)
  | confirmed (image : α)
  | installed (old image : α)
  | trial (old image : α)
  deriving DecidableEq

namespace Firmware

variable {α β : Type*}

/-- The firmware after a restart. -/
def restart (rollback : Bool) : Firmware α → Firmware α
  | .confirmed image => .confirmed image
  | .installed old image => if rollback then .trial old image else .confirmed image
  | .trial old _ => .confirmed old

/-- The firmware after the image that runs has been confirmed. -/
def confirm : Firmware α → Firmware α
  | .trial _ image => .confirmed image
  | firmware => firmware

/-- The image that runs. -/
def running : Firmware α → α
  | .confirmed image => image
  | .installed old _ => old
  | .trial _ image => image

/-- An update is installed, and the device has not been restarted. -/
def isInstalled : Firmware α → Bool
  | .installed _ _ => true
  | _ => false

/-- An update runs, and has not been confirmed. -/
def isTrial : Firmware α → Bool
  | .trial _ _ => true
  | _ => false

/-- The images of the firmware. -/
def images : Firmware α → List α
  | .confirmed image => [image]
  | .installed old image | .trial old image => [old, image]

/-- The same firmware in other terms. -/
def map (g : α → β) : Firmware α → Firmware β
  | .confirmed image => .confirmed (g image)
  | .installed old image => .installed (g old) (g image)
  | .trial old image => .trial (g old) (g image)

variable (g : α → β) (firmware : Firmware α)

@[simp]
theorem running_map : (firmware.map g).running = g firmware.running := by
  cases firmware <;> rfl

@[simp]
theorem isInstalled_map : (firmware.map g).isInstalled = firmware.isInstalled := by
  cases firmware <;> rfl

@[simp]
theorem isTrial_map : (firmware.map g).isTrial = firmware.isTrial := by
  cases firmware <;> rfl

@[simp]
theorem map_restart (rollback : Bool) :
    (firmware.restart rollback).map g = (firmware.map g).restart rollback := by
  cases firmware with
  | installed old image => cases rollback <;> rfl
  | _ => rfl

@[simp]
theorem map_confirm : firmware.confirm.map g = (firmware.map g).confirm := by
  cases firmware <;> rfl

/-- Only the images of the firmware matter. -/
theorem map_congr {g g' : α → β} {firmware : Firmware α} (h : ∀ a ∈ firmware.images, g a = g' a) :
    firmware.map g = firmware.map g' := by
  cases firmware <;> simp_all [images, map]

/-- After a restart nothing is installed. -/
@[simp]
theorem isInstalled_restart (rollback : Bool) : (firmware.restart rollback).isInstalled = false := by
  cases firmware with
  | installed old image => cases rollback <;> rfl
  | _ => rfl

/-- The same image runs after it has been confirmed. -/
@[simp]
theorem running_confirm : firmware.confirm.running = firmware.running := by
  cases firmware <;> rfl

/-- Firmware that is neither installed nor tried is the image that runs. -/
theorem eq_confirmed {firmware : Firmware α} (hinstalled : firmware.isInstalled = false)
    (htrial : firmware.isTrial = false) : firmware = .confirmed firmware.running := by
  cases firmware with
  | confirmed image => rfl
  | installed old image => cases hinstalled
  | trial old image => cases htrial

/-- Nothing is installed beside confirmed firmware. -/
theorem isInstalled_of_eq_confirmed {firmware : Firmware α} {image : α}
    (h : firmware = .confirmed image) : firmware.isInstalled = false := by
  rw [h]
  rfl

end Firmware

/-! ## The store -/

/-- The firmware, and the upload that is being served. -/
structure FirmwareStore where
  firmware : Firmware (List UInt8)
  request : Option (List UInt8)
  deriving DecidableEq

/-- An upload is asked for, refused or installed; the image that runs is confirmed; or the device is
restarted. -/
inductive StoreInput
  | request (body : List UInt8)
  | refuse
  | install
  | confirm
  | restart

/-- What is seen of the store. -/
inductive StoreEvent
  | requested (body : List UInt8)
  | refused
  | boots (image : List UInt8)
  deriving DecidableEq

/-- The store. -/
def firmwareStore (rollback : Bool) (isImage : List UInt8 → Bool) (image : List UInt8) :
    Machine FirmwareStore StoreInput StoreEvent where
  init := ⟨.confirmed image, none⟩
  step s i :=
    match i, s.request, s.firmware with
    | .request body, none, firmware => some (⟨firmware, some body⟩, [.requested body])
    | .refuse, some _, firmware =>
      if firmware.isInstalled then none else some (⟨firmware, none⟩, [.refused])
    | .install, some body, .confirmed old =>
      if isImage body then some (⟨.installed old body, some body⟩, []) else none
    | .confirm, request, .trial old image => some (⟨(Firmware.trial old image).confirm, request⟩, [])
    | .restart, _, firmware =>
      some (⟨firmware.restart rollback, none⟩, [.boots (firmware.restart rollback).running])
    | _, _, _ => none

/-! ## What is booted -/

/-- An image that has been asked for, or the first one, and that is valid. -/
def Approved (isImage : List UInt8 → Bool) (image₀ : List UInt8) (us : List StoreEvent)
    (image : List UInt8) : Prop :=
  isImage image = true ∧ (image = image₀ ∨ .requested image ∈ us)

/-- Every image that the store boots has been approved before, as has every image that it holds. -/
structure StoreInv (isImage : List UInt8 → Bool) (image₀ : List UInt8) (us : List StoreEvent)
    (t : FirmwareStore) : Prop where
  images : ∀ image ∈ t.firmware.images, Approved isImage image₀ us image
  request : ∀ body, t.request = some body → .requested body ∈ us
  boots : ∀ past image later, us = past ++ .boots image :: later → Approved isImage image₀ past image

section

variable {isImage : List UInt8 → Bool} {image₀ : List UInt8} {us : List StoreEvent}
  {t t' : FirmwareStore} {rollback : Bool}

theorem Approved.append {image : List UInt8} (h : Approved isImage image₀ us image)
    (us' : List StoreEvent) : Approved isImage image₀ (us ++ us') image :=
  ⟨h.1, h.2.imp id fun hmem => List.mem_append_left _ hmem⟩

/-- An event of which no image is booted keeps what has been booted. -/
theorem StoreInv.boots_snoc (h : StoreInv isImage image₀ us t) {e : StoreEvent}
    (he : ∀ image, e = .boots image → Approved isImage image₀ us image) :
    ∀ past image later, us ++ [e] = past ++ .boots image :: later →
      Approved isImage image₀ past image := by
  intro past image later heq
  rcases List.eq_nil_or_concat later with rfl | ⟨later, e', rfl⟩
  · obtain ⟨rfl, hlast⟩ := List.append_inj' heq rfl
    exact he image (List.cons.inj hlast).1
  · rw [List.concat_eq_append, ← List.cons_append, ← List.append_assoc] at heq
    exact h.boots past image later (List.append_inj' heq rfl).1

/-- After a restart the firmware has no image that it did not have before. -/
theorem Firmware.images_restart {firmware : Firmware (List UInt8)} {image : List UInt8}
    (h : image ∈ (firmware.restart rollback).images) : image ∈ firmware.images := by
  cases firmware with
  | confirmed => exact h
  | installed old new => cases rollback <;> simp [restart, images] at h ⊢ <;> simp [h]
  | trial old new => simp [restart, images] at h ⊢; simp [h]

/-- The image that runs is one of the firmware. -/
theorem Firmware.running_mem (firmware : Firmware (List UInt8)) :
    firmware.running ∈ firmware.images := by
  cases firmware <;> simp [running, images]

/-- Every input of the store keeps that. -/
theorem StoreInv.step {i : StoreInput} {us' : List StoreEvent}
    (h : StoreInv isImage image₀ us t)
    (hstep : (firmwareStore rollback isImage image₀).step t i = some (t', us')) :
    StoreInv isImage image₀ (us ++ us') t' := by
  obtain ⟨firmware, request⟩ := t
  have happroved : ∀ us', ∀ image ∈ firmware.images, Approved isImage image₀ (us ++ us') image :=
    fun us' image hmem => (h.images image hmem).append us'
  cases i with
  | request body =>
    cases request <;> simp only [firmwareStore, reduceCtorEq] at hstep
    cases hstep
    refine ⟨happroved _, fun body' hbody => ?_, h.boots_snoc nofun⟩
    cases hbody
    simp
  | refuse =>
    cases request <;> simp only [firmwareStore, reduceCtorEq] at hstep
    split_ifs at hstep
    cases hstep
    exact ⟨happroved _, nofun, h.boots_snoc nofun⟩
  | install =>
    cases request with
    | none => cases firmware <;> cases hstep
    | some body =>
      cases firmware <;> simp only [firmwareStore, reduceCtorEq] at hstep
      split_ifs at hstep with hvalid
      cases hstep
      -- The new image is the body of the request.
      have hbody : Approved isImage image₀ us body := ⟨hvalid, .inr (h.request body rfl)⟩
      rw [List.append_nil]
      refine ⟨fun image hmem => ?_, h.request, h.boots⟩
      rcases List.mem_pair.mp hmem with rfl | rfl
      · exact h.images image (by simp [Firmware.images])
      · exact hbody
  | confirm =>
    cases firmware <;> simp only [firmwareStore, reduceCtorEq] at hstep
    cases hstep
    rw [List.append_nil]
    refine ⟨fun image hmem => h.images image ?_, h.request, h.boots⟩
    simp only [Firmware.confirm, Firmware.images, List.mem_singleton] at hmem
    simp [Firmware.images, hmem]
  | restart =>
    cases hstep
    refine ⟨fun image hmem => happroved _ image (Firmware.images_restart hmem), nofun,
      h.boots_snoc fun image heq => ?_⟩
    cases heq
    exact h.images _ (Firmware.images_restart (Firmware.running_mem _))

/-- In every run, an image that is booted has been approved before. -/
theorem store_boots (hfirst : isImage image₀ = true) {js : List StoreInput}
    (hrun : (firmwareStore rollback isImage image₀).run (firmwareStore rollback isImage image₀).init js =
      some (t, us)) {past later : List StoreEvent} {image : List UInt8}
    (hus : us = past ++ .boots image :: later) : Approved isImage image₀ past image := by
  have hinit : StoreInv isImage image₀ [] ⟨.confirmed image₀, none⟩ := by
    refine ⟨fun image' hmem => ?_, nofun, fun past image' later heq => by simp at heq⟩
    rw [List.mem_singleton.mp hmem]
    exact ⟨hfirst, .inl rfl⟩
  exact (Machine.run_inv (StoreInv isImage image₀) hinit (fun _ _ _ _ _ hs hstep => hs.step hstep)
    hrun).boots past image later hus

end

end PartLib.Ota
