import PartLib.Ota.Partitions
import PartLib.Ota.Uploads
import PartLib.Lib.Refinement

/-!
# An update is atomic

The device refines the store of `Firmware.lean` (`device_refines_store`): whatever requests come in,
whatever the calls return, and wherever in them the power is lost, the device shows what the store
does. So it boots the image that it was delivered with or the body of a request, and nothing that is
not a valid image (`boots_image`). All that is assumed of the boot loader and of `esp_ota_*` is what
their documentation says.

The relation between the two rests on where the handler is. The partition that is being written is not
the running one, and not the one that is booted next; and from the switch to the new image on, the
handler has nothing left but to restart, so that no other upload comes in between.
-/

namespace PartLib.Ota

/-! ## The device as the store -/

/-- What is seen of the device. -/
def DeviceOut.event : DeviceOut → Option StoreEvent
  | .start _ | .call _ => none
  | .requested body => some (.requested body)
  | .refused => some .refused
  | .boots image => some (.boots image)

/-- What the handler has written, and where it is when the body is so long that its length is negative
as an `int`: the loop is not entered then. -/
def Written (body : List UInt8) (calls : List UpdateCall) (u : UpdatePost) : Prop :=
  (body.length ≤ intMax ∧ UpdateInv body calls u) ∨
    (written calls = [] ∧ u.remaining ≤ 0 ∧ u.pc ≠ .recv ∧ ∀ recv_len, u.pc ≠ .write recv_len)

section

variable {π φ χ : Type} (api : OtaApi π φ χ) (firmware : φ → Firmware π)

/-- The images for which the flash is set up. -/
def OtaApi.held (f : φ) : Firmware (List UInt8) := (firmware f).map (api.image f)

/-- How far an upload is, at each place of the handler. -/
def OtaApi.UploadAt (f : φ) (running : π) (ota_partition : Option π) (calls : List UpdateCall) :
    UpdatePc → Prop
  | .begin | .sendErr _ | .returned _ => (firmware f).isInstalled = false
  | .recv | .write _ | .otaEnd | .setBoot =>
    firmware f = .confirmed running ∧
      ∃ p, ota_partition = some p ∧ p ≠ running ∧ api.image f p = written calls
  -- Nothing is left but to restart.
  | .sendStr _ | .delay | .restart | .restarted | .aborted => True

/-- What the server is doing for a request. -/
def OtaApi.ServingAt (f : φ) (running : π) (request : Option (List UInt8)) :
    Option (Serving π) → Prop
  | none | some (.reboot _) => request = none ∧ (firmware f).isInstalled = false
  | some (.update ota_partition u) =>
    ∃ body calls, request = some body ∧ Written body calls u ∧
      api.UploadAt firmware f running ota_partition calls u.pc

/-- The device stands for the store: the flash holds the firmware, the server is serving the request,
and an image is marked as valid only when it is being tried. -/
structure Stands (d : OtaDevice π φ) (t : FirmwareStore) : Prop where
  running : d.running = (firmware d.flash).running
  holds : t.firmware = api.held firmware d.flash
  serving : api.ServingAt firmware d.flash d.running t.request d.serving
  marking : d.start = .markValid → (firmware d.flash).isTrial = true

end

/-! ## What is written -/

section

variable {body : List UInt8} {calls : List UpdateCall} {u u' : UpdatePost} {a : UpdateAnswer}
  {c : UpdateCall}

/-- A call of the handler keeps what is written in its place. -/
theorem Written.step (h : Written body calls u) (hstep : updateStep u u.pc a = some (u', c)) :
    Written body (calls ++ [c]) u' := by
  rcases h with ⟨hlen, hinv⟩ | ⟨hnil, hrem, hrecv, hwrite⟩
  · exact .inl ⟨hlen, updateInv_step hlen hinv hstep⟩
  · -- No receive and no write is made, and none comes up.
    right
    rw [written_append, hnil, List.nil_append]
    have hhead : loopHead u.remaining = .otaEnd := if_neg (by omega)
    cases hpc : u.pc with
    | recv => exact absurd hpc hrecv
    | write recv_len => exact absurd hpc (hwrite recv_len)
    | begin | otaEnd | setBoot | sendErr | sendStr | delay | restart =>
      rw [hpc] at hstep
      cases a <;> simp only [updateStep, Option.some.injEq, Prod.mk.injEq, reduceCtorEq] at hstep
      obtain ⟨rfl, rfl⟩ := hstep
      refine ⟨rfl, hrem, ?_, ?_⟩ <;> simp only [hhead] <;> (try split_ifs) <;> simp
    | returned | restarted | aborted =>
      rw [hpc] at hstep
      cases a <;> simp [updateStep] at hstep

/-- Above `INT_MAX`, a size is negative as an `int`. -/
theorem intOfSize_nonpos {n : ℕ} (hmax : ¬ n ≤ intMax) (hlen : n < 2 ^ 32) : intOfSize n ≤ 0 := by
  unfold intMax at hmax
  unfold intOfSize
  rw [Int.bmod_def]
  split_ifs <;> omega

/-- Nothing is written at the start. -/
theorem written_init (buf : RecvBuf) (hlen : body.length < 2 ^ 32) :
    Written body [] (updatePostHandler body buf).init := by
  by_cases hmax : body.length ≤ intMax
  · exact .inl ⟨hmax, updateInv_init buf hmax⟩
  · refine .inr ⟨rfl, ?_, by simp [updatePostHandler], by simp [updatePostHandler]⟩
    simp only [updatePostHandler]
    exact intOfSize_nonpos hmax hlen

/-- Nothing is written before the update has begun. -/
theorem Written.begin (h : Written body calls u) (hpc : u.pc = .begin) : written calls = [] := by
  rcases h with ⟨-, hinv⟩ | ⟨hnil, -⟩
  · have hat := hinv.atPc
    rw [hpc] at hat
    rw [hat.1]
    rfl
  · exact hnil

/-- What is written at the end is the body, when it is not empty. -/
theorem Written.eq_body (h : Written body calls u) (hpc : u.pc = .setBoot)
    (hne : written calls ≠ []) : written calls = body := by
  rcases h with ⟨-, hinv⟩ | ⟨hnil, -⟩
  · have hat := hinv.atPc
    rw [hpc] at hat
    exact hat.1
  · exact absurd hnil hne

end

/-! ## The flash -/

/-- The images stay, or the body of the request is installed. -/
def Installs (isImage : List UInt8 → Bool) (body : List UInt8) (held held' : Firmware (List UInt8)) :
    Prop :=
  held' = held ∨ isImage body = true ∧ ∃ old, held = .confirmed old ∧ held' = .installed old body

section

variable {π φ χ : Type} {api : OtaApi π φ χ} {firmware : φ → Firmware π} {rollback : Bool}
  {isImage : List UInt8 → Bool} {f f' : φ} {running : π}

/-- The images stay when the flash is set up for the same partitions, and these hold the same. -/
theorem OtaApi.held_eq (hfirmware : firmware f' = firmware f)
    (himage : ∀ p ∈ (firmware f).images, api.image f' p = api.image f p) :
    api.held firmware f' = api.held firmware f := by
  rw [held, hfirmware]
  exact Firmware.map_congr himage

/-- A restart boots the images as the store does. -/
theorem OtaApi.Documented.held_boot (hapi : api.Documented firmware rollback isImage) (f : φ) :
    api.held firmware (api.boot f).2 = (api.held firmware f).restart rollback := by
  rw [OtaApi.held, hapi.restarts, Firmware.map_restart]
  exact congrArg _ (Firmware.map_congr fun p _ => hapi.boot_image f p)

/-- A call that neither erases nor writes leaves every partition. -/
theorem OtaApi.Documented.call_images (hapi : api.Documented firmware rollback isImage)
    {c : OtaCall π} {r : Option EspErr} {x : χ} (hcall : api.call f running c r x = some f')
    (htarget : c.target = none) (p : π) : api.image f' p = api.image f p :=
  hapi.call_image hcall (by simp [htarget])

/-- A call that switches to no partition leaves what is booted. -/
theorem OtaApi.Documented.begin_keeps (hapi : api.Documented firmware rollback isImage)
    {ota_partition : Option π} {r : Option EspErr} {x : χ}
    (hrunning : running = (firmware f).running) (hinstalled : (firmware f).isInstalled = false)
    (hcall : api.call f running (.begin ota_partition) r x = some f') :
    firmware f' = firmware f ∧ ∀ p ∈ (firmware f).images, api.image f' p = api.image f p := by
  refine ⟨hapi.call_firmware hcall rfl, fun p hmem => ?_⟩
  by_cases hp : ota_partition = some p
  · subst hp
    refine (hapi.begin_refuses hcall).resolve_right fun ⟨hne, htrial⟩ => hne ?_
    -- Without a trial there is no other image than the running one.
    rw [Firmware.eq_confirmed hinstalled htrial] at hmem
    exact (List.mem_singleton.mp hmem).trans hrunning.symm
  · exact hapi.call_image hcall hp

/-- A write to another partition than the running one leaves what is booted. -/
theorem OtaApi.Documented.write_keeps (hapi : api.Documented firmware rollback isImage) {p : π}
    {data : List UInt8} {r : Option EspErr} {x : χ} (hconfirmed : firmware f = .confirmed running)
    (hne : p ≠ running) (hcall : api.call f running (.write (some p) data) r x = some f') :
    firmware f' = firmware f ∧ ∀ q ∈ (firmware f).images, api.image f' q = api.image f q := by
  refine ⟨hapi.call_firmware hcall rfl, fun q hmem => hapi.call_image hcall fun heq => hne ?_⟩
  rw [hconfirmed] at hmem
  exact (Option.some.inj heq).trans (List.mem_singleton.mp hmem)

/-- A call of the handler keeps the images or installs the body, however the call ends. -/
theorem OtaApi.UploadAt.call {ota_partition : Option π} {body : List UInt8} {calls : List UpdateCall}
    {u : UpdatePost} {c : OtaCall π} {r : Option EspErr} {x : χ}
    (hat : api.UploadAt firmware f running ota_partition calls u.pc)
    (hapi : api.Documented firmware rollback isImage) (hempty : isImage [] = false)
    (hrunning : running = (firmware f).running) (hwritten : Written body calls u)
    (hc : u.otaCall ota_partition = some c) (hcall : api.call f running c r x = some f') :
    Installs isImage body (api.held firmware f) (api.held firmware f') ∧
      (firmware f').running = running ∧ (firmware f').isTrial = (firmware f).isTrial := by
  have hkeeps : firmware f' = firmware f →
      (∀ p ∈ (firmware f).images, api.image f' p = api.image f p) →
        Installs isImage body (api.held firmware f) (api.held firmware f') ∧
          (firmware f').running = running ∧ (firmware f').isTrial = (firmware f).isTrial := by
    intro hfirmware himage
    exact ⟨.inl (OtaApi.held_eq hfirmware himage), by rw [hfirmware, hrunning], by rw [hfirmware]⟩
  cases hpc : u.pc with
  | begin =>
    rw [hpc] at hat
    simp only [UpdatePost.otaCall, hpc, Option.some.injEq] at hc
    subst hc
    obtain ⟨hfirmware, himage⟩ := hapi.begin_keeps hrunning hat hcall
    exact hkeeps hfirmware himage
  | write recv_len =>
    rw [hpc] at hat
    obtain ⟨hconfirmed, p, rfl, hne, -⟩ := hat
    simp only [UpdatePost.otaCall, hpc, Option.some.injEq] at hc
    subst hc
    obtain ⟨hfirmware, himage⟩ := hapi.write_keeps hconfirmed hne hcall
    exact hkeeps hfirmware himage
  | otaEnd =>
    simp only [UpdatePost.otaCall, hpc, Option.some.injEq] at hc
    subst hc
    exact hkeeps (hapi.call_firmware hcall rfl) fun p _ => hapi.call_images hcall rfl p
  | setBoot =>
    have hbody : written calls ≠ [] → written calls = body := hwritten.eq_body hpc
    rw [hpc] at hat
    obtain ⟨hconfirmed, p, rfl, hne, himage⟩ := hat
    simp only [UpdatePost.otaCall, hpc, Option.some.injEq] at hc
    subst hc
    have hsame : ∀ q, api.image f' q = api.image f q := hapi.call_images hcall rfl
    rcases hapi.switch hcall with ⟨hfirmware, -⟩ | ⟨hvalid, -, hswitch⟩
    · exact hkeeps hfirmware fun q _ => hsame q
    · -- The image is valid, so it is not empty, and it is the body.
      have hbody : api.image f p = body := by
        refine himage.trans (hbody fun hnil => ?_)
        rw [himage, hnil, hempty] at hvalid
        cases hvalid
      have hswitched := hswitch running hconfirmed
      refine ⟨.inr ⟨hbody ▸ hvalid, api.image f running, ?_, ?_⟩, ?_, ?_⟩
      · rw [OtaApi.held, hconfirmed]
        rfl
      · rw [OtaApi.held, hswitched, ← hbody, ← hsame running, ← hsame p]
        rfl
      · rw [hswitched]
        rfl
      · rw [hswitched, hconfirmed]
        rfl
  | recv | sendErr | sendStr | delay | restart | returned | restarted | aborted =>
    simp [UpdatePost.otaCall, hpc] at hc

/-- In the loop, and at its end, an upload is written to another partition than the running one. -/
theorem OtaApi.uploadAt_loopHead {ota_partition : Option π} {calls : List UpdateCall}
    (hconfirmed : firmware f = .confirmed running)
    (hpart : ∃ p, ota_partition = some p ∧ p ≠ running ∧ api.image f p = written calls)
    (remaining : ℤ) : api.UploadAt firmware f running ota_partition calls (loopHead remaining) := by
  unfold loopHead
  split_ifs
  · exact ⟨hconfirmed, hpart⟩
  · exact ⟨hconfirmed, hpart⟩

/-- A call of the handler leaves the upload in its place. -/
theorem OtaApi.UploadAt.step {ota_partition : Option π} {body : List UInt8} {calls : List UpdateCall}
    {u u' : UpdatePost} {a : UpdateAnswer} {c : UpdateCall} {x : χ}
    (hat : api.UploadAt firmware f running ota_partition calls u.pc)
    (hapi : api.Documented firmware rollback isImage) (hrunning : running = (firmware f).running)
    (hwritten : Written body calls u) (hstep : updateStep u u.pc a = some (u', c))
    (hflash : api.flashAfter f running ota_partition u x a = some f') :
    api.UploadAt firmware f' running ota_partition (calls ++ [c]) u'.pc := by
  cases hpc : u.pc with
  | begin =>
    have hnil : written calls = [] := hwritten.begin hpc
    rw [hpc] at hat hstep
    cases a <;> simp only [updateStep, Option.some.injEq, Prod.mk.injEq, reduceCtorEq] at hstep
    obtain ⟨rfl, rfl⟩ := hstep
    simp only [OtaApi.flashAfter, UpdatePost.otaCall, hpc] at hflash
    split_ifs with hok
    · subst hok
      obtain ⟨p, hpart, hne, htrial, herased⟩ := hapi.begin_erases hflash
      have hconfirmed : firmware f' = .confirmed running := by
        rw [hapi.call_firmware hflash rfl, hrunning]
        exact Firmware.eq_confirmed hat htrial
      refine OtaApi.uploadAt_loopHead hconfirmed ⟨p, hpart, hne, ?_⟩ _
      rw [herased, written_append, hnil]
      rfl
    · trivial
  | recv =>
    rw [hpc] at hat hstep
    obtain ⟨hconfirmed, p, hpart, hne, himage⟩ := hat
    have himage' : ∀ size recv_len, api.image f p = written (calls ++ [.recv size recv_len]) := by
      simpa [written_append, written] using himage
    cases a <;> simp only [updateStep, reduceCtorEq] at hstep
    split_ifs at hstep with hle htimeout hfail <;> cases hstep <;> cases hflash
    · exact OtaApi.uploadAt_loopHead hconfirmed ⟨p, hpart, hne, himage' _ _⟩ _
    · exact Firmware.isInstalled_of_eq_confirmed hconfirmed
    · exact ⟨hconfirmed, p, hpart, hne, himage' _ _⟩
  | write recv_len =>
    rw [hpc] at hat hstep
    obtain ⟨hconfirmed, p, rfl, hne, himage⟩ := hat
    cases a <;> simp only [updateStep, Option.some.injEq, Prod.mk.injEq, reduceCtorEq] at hstep
    obtain ⟨rfl, rfl⟩ := hstep
    simp only [OtaApi.flashAfter, UpdatePost.otaCall, hpc] at hflash
    have hconfirmed' : firmware f' = .confirmed running :=
      (hapi.call_firmware hflash rfl).trans hconfirmed
    split_ifs with hok
    · subst hok
      refine OtaApi.uploadAt_loopHead hconfirmed' ⟨p, rfl, hne, ?_⟩ _
      rw [hapi.write_appends hflash, himage, written_append]
      simp [written]
    · exact Firmware.isInstalled_of_eq_confirmed hconfirmed'
  | otaEnd =>
    rw [hpc] at hat hstep
    obtain ⟨hconfirmed, p, rfl, hne, himage⟩ := hat
    cases a <;> simp only [updateStep, Option.some.injEq, Prod.mk.injEq, reduceCtorEq] at hstep
    obtain ⟨rfl, rfl⟩ := hstep
    simp only [OtaApi.flashAfter, UpdatePost.otaCall, hpc] at hflash
    have hconfirmed' : firmware f' = .confirmed running :=
      (hapi.call_firmware hflash rfl).trans hconfirmed
    split_ifs with hok
    · refine ⟨hconfirmed', p, rfl, hne, ?_⟩
      rw [hapi.call_images hflash rfl, himage, written_append]
      simp [written]
    · exact Firmware.isInstalled_of_eq_confirmed hconfirmed'
  | setBoot =>
    rw [hpc] at hat hstep
    obtain ⟨hconfirmed, p, rfl, hne, himage⟩ := hat
    cases a <;> simp only [updateStep, Option.some.injEq, Prod.mk.injEq, reduceCtorEq] at hstep
    obtain ⟨rfl, rfl⟩ := hstep
    simp only [OtaApi.flashAfter, UpdatePost.otaCall, hpc] at hflash
    split_ifs with hok
    · trivial
    · -- An error leaves the boot partition as it was.
      rcases hapi.switch hflash with ⟨hfirmware, -⟩ | ⟨-, hnone | hok', -⟩
      · exact Firmware.isInstalled_of_eq_confirmed (hfirmware.trans hconfirmed)
      · cases hnone
      · exact absurd (Option.some.inj hok') hok
  | sendErr | sendStr | delay | restart =>
    rw [hpc] at hat hstep
    cases a <;> simp only [updateStep, Option.some.injEq, Prod.mk.injEq, reduceCtorEq] at hstep
    obtain ⟨rfl, rfl⟩ := hstep
    cases hflash
    exact hat
  | returned | restarted | aborted =>
    rw [hpc] at hstep
    cases a <;> simp [updateStep] at hstep

/-- A call of the handler keeps the images or installs the body. -/
theorem OtaApi.UploadAt.installs {ota_partition : Option π} {body : List UInt8}
    {calls : List UpdateCall} {u : UpdatePost} {a : UpdateAnswer} {x : χ}
    (hat : api.UploadAt firmware f running ota_partition calls u.pc)
    (hapi : api.Documented firmware rollback isImage) (hempty : isImage [] = false)
    (hrunning : running = (firmware f).running) (hwritten : Written body calls u)
    (hflash : api.flashAfter f running ota_partition u x a = some f') :
    Installs isImage body (api.held firmware f) (api.held firmware f') ∧
      (firmware f').running = running ∧ (firmware f').isTrial = (firmware f).isTrial := by
  have hsame : f' = f → Installs isImage body (api.held firmware f) (api.held firmware f') ∧
      (firmware f').running = running ∧ (firmware f').isTrial = (firmware f).isTrial := by
    rintro rfl
    exact ⟨.inl rfl, hrunning.symm, rfl⟩
  cases a with
  | err e =>
    cases hc : u.otaCall ota_partition with
    | none =>
      simp only [OtaApi.flashAfter, hc] at hflash
      exact hsame (Option.some.inj hflash).symm
    | some c =>
      simp only [OtaApi.flashAfter, hc] at hflash
      exact hat.call hapi hempty hrunning hwritten hc hflash
  | len | done => exact hsame (Option.some.inj hflash).symm

end

/-! ## One step -/

section

variable {π φ χ : Type} {api : OtaApi π φ χ} {firmware : φ → Firmware π} {rollback : Bool}
  {isImage : List UInt8 → Bool} {image₀ : List UInt8} {d d' : OtaDevice π φ}
  {t t₁ : FirmwareStore} {o : List DeviceOut}

/-- The store follows a step of the device. -/
def OtaApi.Follows (api : OtaApi π φ χ) (firmware : φ → Firmware π) (rollback : Bool)
    (isImage : List UInt8 → Bool) (image₀ : List UInt8) (t : FirmwareStore) (o : List DeviceOut)
    (d' : OtaDevice π φ) : Prop :=
  ∃ js t', (firmwareStore rollback isImage image₀).run t js = some (t', o.filterMap DeviceOut.event) ∧
    Stands api firmware d' t'

/-- The store comes from one state to another without showing it. -/
def Quiet (rollback : Bool) (isImage : List UInt8 → Bool) (image₀ : List UInt8)
    (t t₁ : FirmwareStore) : Prop :=
  ∃ js, (firmwareStore rollback isImage image₀).run t js = some (t₁, [])

theorem Quiet.refl (t : FirmwareStore) : Quiet rollback isImage image₀ t t := ⟨[], rfl⟩

theorem Quiet.trans {t₂ : FirmwareStore} (h : Quiet rollback isImage image₀ t t₁)
    (h' : Quiet rollback isImage image₀ t₁ t₂) : Quiet rollback isImage image₀ t t₂ := by
  obtain ⟨js, hrun⟩ := h
  obtain ⟨js', hrun'⟩ := h'
  refine ⟨js ++ js', ?_⟩
  rw [Machine.run_append, hrun, Option.bind_some, hrun']
  rfl

/-- The store installs the body of its request, when the device does. -/
theorem Installs.quiet {body : List UInt8} {held : Firmware (List UInt8)}
    (h : Installs isImage body t.firmware held) (hreq : t.request = some body) :
    Quiet rollback isImage image₀ t ⟨held, t.request⟩ := by
  obtain ⟨firmware₀, request⟩ := t
  rcases h with rfl | ⟨hvalid, old, hold, rfl⟩
  · exact .refl _
  · obtain rfl : request = some body := hreq
    obtain rfl : firmware₀ = .confirmed old := hold
    exact ⟨[.install], by simp [Machine.run_cons, Machine.run_nil, firmwareStore, hvalid]⟩

/-- The store confirms the image that it tries. -/
theorem quiet_confirm (htrial : t.firmware.isTrial = true) :
    Quiet rollback isImage image₀ t ⟨t.firmware.confirm, t.request⟩ := by
  obtain ⟨firmware₀, request⟩ := t
  cases firmware₀ with
  | confirmed => cases htrial
  | installed => cases htrial
  | trial old image => exact ⟨[.confirm], rfl⟩

/-- The store follows a step of which it shows nothing. -/
theorem Quiet.follows (ht : Quiet rollback isImage image₀ t t₁) (h : Stands api firmware d' t₁)
    (ho : o.filterMap DeviceOut.event = []) :
    api.Follows firmware rollback isImage image₀ t o d' := by
  obtain ⟨js, hrun⟩ := ht
  exact ⟨js, t₁, by rw [ho]; exact hrun, h⟩

/-- The store follows one input. -/
theorem Quiet.follows_step {i : StoreInput} {t' : FirmwareStore} {us : List StoreEvent}
    (ht : Quiet rollback isImage image₀ t t₁)
    (hstep : (firmwareStore rollback isImage image₀).step t₁ i = some (t', us))
    (ho : o.filterMap DeviceOut.event = us) (h : Stands api firmware d' t') :
    api.Follows firmware rollback isImage image₀ t o d' := by
  obtain ⟨js, hrun⟩ := ht
  refine ⟨js ++ [i], t', ?_, h⟩
  rw [Machine.run_append, hrun, Option.bind_some, Machine.run_cons, hstep, ho]
  simp

/-- The device stands for the store after a restart. -/
theorem OtaApi.Documented.stands_restart (hapi : api.Documented firmware rollback isImage) (f : φ) :
    Stands api firmware (api.restart f).1 ⟨(api.held firmware f).restart rollback, none⟩ := by
  refine ⟨hapi.boots f, (hapi.held_boot f).symm, ⟨rfl, ?_⟩, nofun⟩
  simp only [OtaApi.restart]
  rw [hapi.restarts, Firmware.isInstalled_restart]

/-- The store follows a restart. -/
theorem Quiet.follows_restart {f : φ} (ht : Quiet rollback isImage image₀ t t₁)
    (hapi : api.Documented firmware rollback isImage) (h : t₁.firmware = api.held firmware f)
    (ho : o.filterMap DeviceOut.event = []) :
    api.Follows firmware rollback isImage image₀ t (o ++ [(api.restart f).2]) (api.restart f).1 := by
  have hstep : (firmwareStore rollback isImage image₀).step t₁ .restart =
      some (⟨t₁.firmware.restart rollback, none⟩,
        [.boots (t₁.firmware.restart rollback).running]) := rfl
  have himage : (t₁.firmware.restart rollback).running = api.image (api.boot f).2 (api.boot f).1 := by
    rw [h, ← hapi.held_boot, OtaApi.held, Firmware.running_map, hapi.boots]
  refine ht.follows_step hstep ?_ (h ▸ hapi.stands_restart f)
  rw [List.filterMap_append, ho, himage]
  rfl

/-- What the server is doing goes on when nothing changes. -/
theorem OtaApi.ServingAt.congr {f f' : φ} {running : π} {request : Option (List UInt8)}
    {serving : Option (Serving π)} (h : api.ServingAt firmware f running request serving)
    (hfirmware : firmware f' = firmware f) (himage : ∀ p, api.image f' p = api.image f p) :
    api.ServingAt firmware f' running request serving := by
  rcases serving with _ | ⟨ota_partition, u⟩ | left
  · exact ⟨h.1, hfirmware ▸ h.2⟩
  · obtain ⟨body, calls, hreq, hwritten, hat⟩ := h
    refine ⟨body, calls, hreq, hwritten, ?_⟩
    cases hpc : u.pc with
    | begin | sendErr | returned | recv | write | otaEnd | setBoot =>
      rw [hpc] at hat
      simpa only [OtaApi.UploadAt, hfirmware, himage] using hat
    | sendStr | delay | restart | restarted | aborted => trivial
  · exact ⟨h.1, hfirmware ▸ h.2⟩

/-- What the server is doing goes on when an image is confirmed. -/
theorem OtaApi.ServingAt.confirm {f f' : φ} {running : π} {request : Option (List UInt8)}
    {serving : Option (Serving π)} (h : api.ServingAt firmware f running request serving)
    (htrial : (firmware f).isTrial = true) (hconfirm : firmware f' = (firmware f).confirm) :
    api.ServingAt firmware f' running request serving := by
  obtain ⟨old, p, hfirmware⟩ : ∃ old p, firmware f = .trial old p := by
    cases hf : firmware f with
    | trial old p => exact ⟨old, p, rfl⟩
    | _ =>
      rw [hf] at htrial
      cases htrial
  have hfirmware' : firmware f' = .confirmed p := by
    rw [hconfirm, hfirmware]
    rfl
  have hinstalled : (firmware f').isInstalled = false := by
    rw [hfirmware']
    rfl
  rcases serving with _ | ⟨ota_partition, u⟩ | left
  · exact ⟨h.1, hinstalled⟩
  · obtain ⟨body, calls, hreq, hwritten, hat⟩ := h
    refine ⟨body, calls, hreq, hwritten, ?_⟩
    -- Nothing is written while an image is tried.
    cases hpc : u.pc with
    | begin | sendErr | returned => exact hinstalled
    | sendStr | delay | restart | restarted | aborted => trivial
    | recv | write | otaEnd | setBoot =>
      rw [hpc] at hat
      obtain ⟨hconfirmed, -⟩ := hat
      rw [hfirmware] at hconfirmed
      cases hconfirmed
  · exact ⟨h.1, hinstalled⟩

/-- A mark keeps the images or confirms the one that is tried. -/
theorem OtaApi.Documented.mark_held (hapi : api.Documented firmware rollback isImage) {f f' : φ}
    {running : π} {r : Option EspErr} {x : χ} (hmark : api.mark_app_valid f running r x = some f') :
    (firmware f' = firmware f ∧ api.held firmware f' = api.held firmware f) ∨
      (firmware f' = (firmware f).confirm ∧ api.held firmware f' = (api.held firmware f).confirm) := by
  have himage := hapi.mark_image hmark
  rcases hapi.mark hmark with ⟨hfirmware, -⟩ | ⟨hfirmware, -⟩
  · exact .inl ⟨hfirmware, OtaApi.held_eq hfirmware fun p _ => himage p⟩
  · refine .inr ⟨hfirmware, ?_⟩
    rw [OtaApi.held, hfirmware, Firmware.map_confirm]
    exact congrArg _ (Firmware.map_congr fun p _ => himage p)

variable (rollback isImage image₀) in
/-- A call of `start_ota_http` leaves a device that stands for the store. -/
theorem Stands.start {a : StartAnswer} {start' : StartPc} {c : StartCall} {x : χ}
    (h : Stands api firmware d t) (hapi : api.Documented firmware rollback isImage)
    (hstep : startStep d.start a = some (start', c)) (hafter : d.afterStart api x c = some d') :
    ∃ t₁, Quiet rollback isImage image₀ t t₁ ∧
      Stands api firmware { d' with start := start' } t₁ := by
  obtain ⟨e, ota_state⟩ := a
  cases hpc : d.start with
  | nvsInit | nvsErase | nvsInitAgain | httpdStart =>
    rw [hpc] at hstep
    simp only [startStep, Option.some.injEq, Prod.mk.injEq] at hstep
    obtain ⟨rfl, rfl⟩ := hstep
    cases hafter
    refine ⟨t, .refl t, h.running, h.holds, h.serving, fun hmark => ?_⟩
    dsimp only at hmark
    split_ifs at hmark
  | register uri left =>
    rw [hpc] at hstep
    simp only [startStep, Option.some.injEq, Prod.mk.injEq] at hstep
    obtain ⟨rfl, rfl⟩ := hstep
    cases hafter
    -- Only the table of the handlers changes.
    refine ⟨t, .refl t, ?_⟩
    split_ifs
    · exact ⟨h.running, h.holds, h.serving, fun hmark => by cases left <;> cases hmark⟩
    · exact ⟨h.running, h.holds, h.serving, fun hmark => by cases left <;> cases hmark⟩
  | getState =>
    rw [hpc] at hstep
    simp only [startStep, Option.some.injEq, Prod.mk.injEq] at hstep
    obtain ⟨rfl, rfl⟩ := hstep
    simp only [OtaDevice.afterStart] at hafter
    split_ifs at hafter with hanswer
    cases hafter
    refine ⟨t, .refl t, h.running, h.holds, h.serving, fun hmark => ?_⟩
    dsimp only at hmark
    split_ifs at hmark with hpending
    -- The image is to be verified, so it is the one that is tried.
    obtain ⟨rfl, rfl⟩ := hpending
    rw [h.running] at hanswer
    exact hapi.pending hanswer
  | markValid =>
    have htrial := h.marking hpc
    rw [hpc] at hstep
    simp only [startStep, Option.some.injEq, Prod.mk.injEq] at hstep
    obtain ⟨rfl, rfl⟩ := hstep
    obtain ⟨f, hmark, heq⟩ := Option.map_eq_some_iff.mp hafter
    subst heq
    rcases hapi.mark_held hmark with ⟨hfirmware, hheld⟩ | ⟨hfirmware, hheld⟩
    · refine ⟨t, .refl t, ?_, h.holds.trans hheld.symm, ?_, nofun⟩
      · rw [hfirmware]
        exact h.running
      · exact h.serving.congr hfirmware (hapi.mark_image hmark)
    · refine ⟨⟨t.firmware.confirm, t.request⟩, quiet_confirm ?_, ?_, ?_, ?_, nofun⟩
      · rw [h.holds, OtaApi.held, Firmware.isTrial_map, htrial]
      · rw [hfirmware, Firmware.running_confirm]
        exact h.running
      · rw [hheld, ← h.holds]
      · exact h.serving.confirm htrial hfirmware
  | idle | aborted =>
    rw [hpc] at hstep
    cases hstep

variable (rollback isImage image₀) in
/-- When the power is lost, the flash holds the firmware, whatever calls are broken off. -/
theorem Stands.brokenOff {f : φ} {x : χ} (h : Stands api firmware d t)
    (hapi : api.Documented firmware rollback isImage) (hempty : isImage [] = false)
    (hbroken : d.brokenOff api x = some f) :
    ∃ t₁, Quiet rollback isImage image₀ t t₁ ∧ t₁.firmware = api.held firmware f := by
  obtain ⟨f₁, hcall, hmark⟩ := Option.bind_eq_some_iff.mp hbroken
  -- The call of the server comes first, and then the mark of `start_ota_http`.
  obtain ⟨t₁, hquiet, hheld, htrial⟩ : ∃ t₁, Quiet rollback isImage image₀ t t₁ ∧
      t₁.firmware = api.held firmware f₁ ∧
        (firmware f₁).isTrial = (firmware d.flash).isTrial := by
    have hs := h.serving
    rcases hserving : d.serving with _ | ⟨ota_partition, u⟩ | left
    · rw [OtaDevice.callBroken, hserving] at hcall
      cases hcall
      exact ⟨t, .refl t, h.holds, rfl⟩
    · rw [OtaDevice.callBroken, hserving] at hcall
      rw [hserving] at hs
      obtain ⟨body, calls, hreq, hwritten, hat⟩ := hs
      cases hc : u.otaCall ota_partition with
      | none =>
        simp only [Option.bind_some, Serving.otaCall, hc, Option.some.injEq] at hcall
        subst hcall
        exact ⟨t, .refl t, h.holds, rfl⟩
      | some c =>
        simp only [Option.bind_some, Serving.otaCall, hc] at hcall
        obtain ⟨hinstalls, -, htrial⟩ := hat.call hapi hempty h.running hwritten hc hcall
        rw [← h.holds] at hinstalls
        exact ⟨_, hinstalls.quiet hreq, rfl, htrial⟩
    · rw [OtaDevice.callBroken, hserving] at hcall
      cases hcall
      exact ⟨t, .refl t, h.holds, rfl⟩
  split_ifs at hmark with hmarking
  · rw [h.marking hmarking] at htrial
    rcases hapi.mark_held hmark with ⟨-, hsame⟩ | ⟨-, hconfirm⟩
    · exact ⟨t₁, hquiet, hheld.trans hsame.symm⟩
    · refine ⟨⟨t₁.firmware.confirm, t₁.request⟩, hquiet.trans (quiet_confirm ?_), ?_⟩
      · rw [hheld, OtaApi.held, Firmware.isTrial_map, htrial]
      · rw [hconfirm, hheld]
  · cases hmark
    exact ⟨t₁, hquiet, hheld⟩

/-- The store follows a call of the handler of an upload. -/
theorem Stands.updateAnswer {ota_partition : Option π} {u : UpdatePost} {a : UpdateAnswer} {x : χ}
    (h : Stands api firmware d t) (hapi : api.Documented firmware rollback isImage)
    (hempty : isImage [] = false) (hserving : d.serving = some (.update ota_partition u))
    (hstep : d.updateAnswer api ota_partition u a x = some (d', o)) :
    api.Follows firmware rollback isImage image₀ t o d' := by
  obtain ⟨⟨u', c⟩, hcall, hstep⟩ := Option.bind_eq_some_iff.mp hstep
  obtain ⟨f, hflash, hstep⟩ := Option.bind_eq_some_iff.mp hstep
  have hs := h.serving
  rw [hserving] at hs
  obtain ⟨body, calls, hreq, hwritten, hat⟩ := hs
  obtain ⟨hinstalls, hrunning, htrial⟩ := hat.installs hapi hempty h.running hwritten hflash
  have hat' := hat.step hapi h.running hwritten hcall hflash
  rw [← h.holds] at hinstalls
  have hquiet : Quiet rollback isImage image₀ t ⟨api.held firmware f, t.request⟩ :=
    hinstalls.quiet hreq
  have hmarking : d.start = .markValid → (firmware f).isTrial = true :=
    fun hmark => htrial.trans (h.marking hmark)
  cases hpc : u'.pc with
  | returned err =>
    rw [hpc] at hat'
    simp only [hpc, Option.pure_def, Option.some.injEq, Prod.mk.injEq] at hstep
    obtain ⟨rfl, rfl⟩ := hstep
    have hrefuse :
        (firmwareStore rollback isImage image₀).step ⟨api.held firmware f, t.request⟩ .refuse =
          some (⟨api.held firmware f, none⟩, [.refused]) := by
      have hinstalled : (api.held firmware f).isInstalled = false := by
        rw [OtaApi.held, Firmware.isInstalled_map]
        exact hat'
      simp [firmwareStore, hreq, hinstalled]
    exact hquiet.follows_step hrefuse rfl ⟨hrunning.symm, rfl, ⟨rfl, hat'⟩, hmarking⟩
  | restarted | aborted =>
    simp only [hpc, Option.pure_def, Option.some.injEq, Prod.mk.injEq] at hstep
    obtain ⟨rfl, rfl⟩ := hstep
    exact hquiet.follows_restart (o := [.call c]) hapi rfl rfl
  | begin | recv | write | otaEnd | setBoot | sendErr | sendStr | delay | restart =>
    simp only [hpc, Option.pure_def, Option.some.injEq, Prod.mk.injEq] at hstep
    obtain ⟨rfl, rfl⟩ := hstep
    exact hquiet.follows ⟨hrunning.symm, rfl, ⟨body, calls ++ [c], hreq, hwritten.step hcall, hat'⟩,
      hmarking⟩ rfl

/-- The store follows every step of the device. -/
theorem Stands.step {f₀ : φ} {i : DeviceInput χ} (h : Stands api firmware d t)
    (hapi : api.Documented firmware rollback isImage) (hempty : isImage [] = false)
    (hstep : (otaDevice api f₀).step d i = some (d', o)) :
    api.Follows firmware rollback isImage image₀ t o d' := by
  have hs := h.serving
  cases i with
  | start a x =>
    obtain ⟨⟨start', c⟩, hcall, hstep⟩ := Option.bind_eq_some_iff.mp hstep
    obtain ⟨d₁, hafter, hstep⟩ := Option.bind_eq_some_iff.mp hstep
    obtain ⟨t₁, hquiet, h₁⟩ := h.start rollback isImage image₀ hapi hcall hafter
    split_ifs at hstep
    · simp only [Option.pure_def, Option.some.injEq, Prod.mk.injEq] at hstep
      obtain ⟨rfl, rfl⟩ := hstep
      exact hquiet.follows_restart (o := [.start c]) hapi h₁.holds rfl
    · simp only [Option.pure_def, Option.some.injEq, Prod.mk.injEq] at hstep
      obtain ⟨rfl, rfl⟩ := hstep
      exact hquiet.follows h₁ rfl
  | updatePost body buf =>
    cases hserving : d.serving with
    | none =>
      rw [hserving] at hs
      simp only [otaDevice, hserving] at hstep
      split_ifs at hstep with hreg
      cases hstep
      have hrequest : (firmwareStore rollback isImage image₀).step t (.request body) =
          some (⟨t.firmware, some body⟩, [.requested body]) := by
        simp [firmwareStore, hs.1]
      exact (Quiet.refl t).follows_step hrequest rfl
        ⟨h.running, h.holds, ⟨body, [], rfl, written_init buf hreg.2, hs.2⟩, h.marking⟩
    | some serving => simp [otaDevice, hserving] at hstep
  | rebootPost =>
    cases hserving : d.serving with
    | none =>
      rw [hserving] at hs
      simp only [otaDevice, hserving] at hstep
      split_ifs at hstep
      cases hstep
      exact (Quiet.refl t).follows ⟨h.running, h.holds, hs, h.marking⟩ rfl
    | some serving => simp [otaDevice, hserving] at hstep
  | answer a x =>
    rcases hserving : d.serving with _ | ⟨ota_partition, u⟩ | left
    · simp [otaDevice, hserving] at hstep
    · simp only [otaDevice, hserving] at hstep
      exact h.updateAnswer hapi hempty hserving hstep
    · rw [hserving] at hs
      cases a with
      | done =>
        cases left with
        | nil => simp [otaDevice, hserving] at hstep
        | cons c left =>
          simp only [otaDevice, hserving] at hstep
          split_ifs at hstep <;> cases hstep
          · exact (Quiet.refl t).follows_restart (o := [.call c]) hapi h.holds rfl
          · exact (Quiet.refl t).follows ⟨h.running, h.holds, hs, h.marking⟩ rfl
      | err | len => simp [otaDevice, hserving] at hstep
  | powerLoss x =>
    obtain ⟨f, hbroken, heq⟩ := Option.map_eq_some_iff.mp hstep
    cases heq
    obtain ⟨t₁, hquiet, hheld⟩ := h.brokenOff rollback isImage image₀ hapi hempty hbroken
    exact hquiet.follows_restart (o := []) hapi hheld rfl

/-- The device stands for the store at the first boot. -/
theorem stands_init (hapi : api.Documented firmware rollback isImage) {f₀ : φ} {p₀ : π}
    (hfirst : firmware f₀ = .confirmed p₀) :
    Stands api firmware (otaDevice api f₀).init
      (firmwareStore rollback isImage (api.image f₀ p₀)).init := by
  have hstands := hapi.stands_restart f₀
  rw [OtaApi.held, hfirst] at hstands
  exact hstands

/-- The device refines the store. -/
def deviceRefinement (hapi : api.Documented firmware rollback isImage) (hempty : isImage [] = false)
    {f₀ : φ} {p₀ : π} (hfirst : firmware f₀ = .confirmed p₀) :
    Refinement (otaDevice api f₀) (firmwareStore rollback isImage (api.image f₀ p₀))
      DeviceOut.event where
  Rel := Stands api firmware
  init := stands_init hapi hfirst
  step h hstep := h.step hapi hempty hstep

end

/-! ## Every run -/

section

variable {π φ χ : Type} {api : OtaApi π φ χ} {firmware : φ → Firmware π} {rollback : Bool}
  {isImage : List UInt8 → Bool} {f₀ : φ} {p₀ : π} {inputs : List (DeviceInput χ)}
  {d : OtaDevice π φ} {os : List DeviceOut}

end

/-! ## A device with two partitions -/

/-- A flash of two partitions, with what it is set up for. -/
structure SlotFlash where
  image : Bool → List UInt8
  firmware : Firmware Bool

/-- A partition with other contents. -/
def SlotFlash.setImage (f : SlotFlash) (p : Bool) (data : List UInt8) : SlotFlash :=
  { f with image := Function.update f.image p data }

/-- An image begins with `ESP_IMAGE_HEADER_MAGIC`. -/
def startsWithMagic (image : List UInt8) : Bool := image.head? = some 0xe9

/-- The boot loader, with rollback, and `esp_ota_*` of two partitions. What a call that does not succeed
leaves in its partition is given. -/
def twoSlots : OtaApi Bool SlotFlash (List UInt8) where
  image f := f.image
  boot f := ((f.firmware.restart true).running, { f with firmware := f.firmware.restart true })
  next_update_partition p := some (!p)
  call f running c r torn :=
    match c with
    | .begin (some p) =>
      if p ≠ running ∧ f.firmware.isTrial = false then
        some (f.setImage p (if r = some espOk then [] else torn))
      else if r = some espOk then none
      else some f
    | .write (some p) data => some (f.setImage p (if r = some espOk then f.image p ++ data else torn))
    | .finish (some p) => if r = some espOk ∧ startsWithMagic (f.image p) = false then none else some f
    | .setBoot (some p) =>
      if r = some espOk then
        if startsWithMagic (f.image p) then
          some { f with firmware := .installed f.firmware.running p }
        else none
      else some f
    -- `ESP_ERR_INVALID_ARG`, or another error.
    | _ => if r = some espOk then none else some f
  state_partition f p e ota_state :=
    decide (e = espOk ∧ ota_state = .pendingVerify) == (f.firmware.isTrial && p == f.firmware.running)
  mark_app_valid f _ r _ :=
    some (if r = some espOk then { f with firmware := f.firmware.confirm } else f)

/-- The two partitions are as documented. -/
theorem twoSlots_documented : twoSlots.Documented SlotFlash.firmware true startsWithMagic where
  restarts _ := rfl
  boots _ := rfl
  boot_image _ _ := rfl
  call_image {f running c r x f' p} hcall hne := by
    have hset : ∀ {q : Bool} (data : List UInt8), some q ≠ some p →
        (f.setImage q data).image p = f.image p := by
      intro q data hq
      exact Function.update_of_ne (fun heq => hq (congrArg some heq.symm)) ..
    rcases c with (_ | q) | ⟨_ | q, data⟩ | (_ | q) | (_ | q) <;> simp only [twoSlots] at hcall <;>
      split_ifs at hcall <;> cases hcall <;> first | rfl | exact hset _ hne
  begin_refuses {f running p r x f'} hcall := by
    simp only [twoSlots] at hcall
    split_ifs at hcall with hallowed <;> cases hcall
    · exact .inr hallowed
    · exact .inr hallowed
    · exact .inl rfl
  begin_erases {f running q x f'} hcall := by
    rcases q with _ | q
    · simp [twoSlots] at hcall
    · simp only [twoSlots, if_true] at hcall
      split_ifs at hcall with hallowed
      cases hcall
      exact ⟨q, rfl, hallowed.1, hallowed.2, Function.update_self ..⟩
  write_appends {f running p data x f'} hcall := by
    simp only [twoSlots, if_true] at hcall
    cases hcall
    exact Function.update_self ..
  call_firmware {f running c r x f'} hcall hswitches := by
    rcases c with (_ | q) | ⟨_ | q, data⟩ | (_ | q) | (_ | q) <;> simp only [twoSlots] at hcall <;>
      split_ifs at hcall <;> cases hcall <;> first | rfl | cases hswitches
  switch {f running p r x f'} hcall := by
    simp only [twoSlots] at hcall
    split_ifs at hcall with hok hvalid <;> cases hcall
    · refine .inr ⟨hvalid, .inr hok, fun q hq => ?_⟩
      simp only [hq]
      rfl
    · exact .inl ⟨rfl, hok⟩
  pending {f} hpending := by
    simpa [twoSlots] using hpending
  mark {f running r x f'} hmark := by
    cases hmark
    split_ifs with hok
    · exact .inr ⟨rfl, .inr hok⟩
    · exact .inl ⟨rfl, hok⟩
  mark_image {f running r x f'} hmark p := by
    cases hmark
    split_ifs <;> rfl

/-- The flash that the device has been delivered with. -/
def delivered : SlotFlash := ⟨fun _ => [0xe9], .confirmed false⟩

/-- `start_ota_http` comes to its end. -/
def started (ota_state : StartAnswer) : List (DeviceInput (List UInt8)) :=
  [⟨espOk, .undefined⟩, ⟨espOk, .undefined⟩, ⟨espOk, .undefined⟩, ⟨espOk, .undefined⟩,
    ⟨espOk, .undefined⟩, ota_state].map (.start · [])

/-- An upload that comes to its end. -/
def uploaded (body : List UInt8) : List (DeviceInput (List UInt8)) :=
  .updatePost body zeroBuf ::
    [.err espOk, .len body.length, .err espOk, .err espOk, .err espOk, .done, .done, .done].map
      (.answer · [])

/-- An update is verified, and another one is not; in the middle of a third, the power is lost. -/
def threeUploads : List (DeviceInput (List UInt8)) :=
  started ⟨0x105, .undefined⟩ ++ uploaded [0xe9, 1] ++ started ⟨espOk, .pendingVerify⟩ ++
    [.start ⟨espOk, .undefined⟩ []] ++ uploaded [0xe9, 2] ++ [.powerLoss []] ++
    started ⟨espOk, .valid⟩ ++
    [.updatePost [0xe9, 3] zeroBuf, .answer (.err espOk) [], .answer (.len 1) [], .powerLoss [7]]

/-- What is seen of the three uploads. -/
def threeUploadsSeen : List StoreEvent :=
  [.requested [0xe9, 1], .boots [0xe9, 1], .requested [0xe9, 2], .boots [0xe9, 2], .boots [0xe9, 1],
    .requested [0xe9, 3], .boots [0xe9, 1]]

/-- The device with the two partitions. -/
def slotDevice : Machine (OtaDevice Bool SlotFlash) (DeviceInput (List UInt8)) DeviceOut :=
  otaDevice twoSlots delivered

theorem threeUploads_run : ∃ d os, slotDevice.run slotDevice.init threeUploads = some (d, os) ∧
    os.filterMap DeviceOut.event = threeUploadsSeen := by
  have hseen : (slotDevice.run slotDevice.init threeUploads).map
      (fun r => r.2.filterMap DeviceOut.event) = some threeUploadsSeen := by
    decide +kernel
  obtain ⟨⟨d, os⟩, hrun, hevents⟩ := Option.map_eq_some_iff.mp hseen
  exact ⟨d, os, hrun, hevents⟩

section

variable {π φ χ : Type} {api : OtaApi π φ χ} {firmware : φ → Firmware π} {rollback : Bool}
  {isImage : List UInt8 → Bool} {f₀ : φ} {p₀ : π} {inputs : List (DeviceInput χ)}
  {d : OtaDevice π φ} {os : List DeviceOut}

/-- Every image that a device boots, in any run, is valid, and is the one that it was delivered with or
the body of a request for an update that came before, as long as the boot loader and `esp_ota_*` do what
their documentation says. -/
theorem boots_image (hapi : api.Documented firmware rollback isImage) (hempty : isImage [] = false)
    (hfirst : firmware f₀ = .confirmed p₀) (hvalid : isImage (api.image f₀ p₀) = true)
    (hrun : (otaDevice api f₀).run (otaDevice api f₀).init inputs = some (d, os))
    {past later : List DeviceOut} {booted : List UInt8} (hos : os = past ++ .boots booted :: later) :
    isImage booted = true ∧ (booted = api.image f₀ p₀ ∨ .requested booted ∈ past) := by
  obtain ⟨hbooted, hfrom⟩ := (deviceRefinement hapi hempty hfirst).outputs
    (P := fun us => us = past.filterMap DeviceOut.event ++ .boots booted ::
      later.filterMap DeviceOut.event →
        Approved isImage (api.image f₀ p₀) (past.filterMap DeviceOut.event) booted)
    (fun js t us hstore hus => store_boots hvalid hstore hus) hrun
    (by rw [hos, List.filterMap_append]; rfl)
  refine ⟨hbooted, hfrom.imp id fun hmem => ?_⟩
  obtain ⟨o, hmem, ho⟩ := List.mem_filterMap.mp hmem
  cases o <;> cases ho
  exact hmem

end

/-- The second update is booted after it has been asked for. -/
theorem boots_image_second_upload :
    ∃ d os past later, slotDevice.run slotDevice.init threeUploads = some (d, os) ∧
      os = past ++ .boots [0xe9, 2] :: later ∧ .requested [0xe9, 2] ∈ past := by
  obtain ⟨d, os, hrun, hevents⟩ := threeUploads_run
  have hmem : StoreEvent.boots [0xe9, 2] ∈ os.filterMap DeviceOut.event := by
    rw [hevents]
    decide
  obtain ⟨o, hmem, ho⟩ := List.mem_filterMap.mp hmem
  cases o <;> cases ho
  obtain ⟨past, later, hos⟩ := List.append_of_mem hmem
  have hbooted := boots_image twoSlots_documented rfl
    (show delivered.firmware = .confirmed false from rfl) rfl hrun hos
  exact ⟨d, os, past, later, hrun, hos, hbooted.2.resolve_left (by decide)⟩

end PartLib.Ota
