import PartLib.Ota.UpdatePost
import PartLib.Ota.Firmware

/-!
# The device that is updated

`start_ota_http` brings the server of the uploads up, marks the running image as valid when the boot
loader is waiting for that, and then only keeps its task. The server runs one handler at a time,
beside that task: `update_post_handler` of `UpdatePost.lean`, whose calls now act on the flash, and
`reboot_post_handler`. At any time the device can lose its power, also in the middle of a call, which
leaves anything in a partition that is being erased or written.

The boot loader and `esp_ota_*` are not part of the repository: `OtaApi` is what they do, on a flash of
any type, and `OtaApi.Documented` what their documentation says of it.
-/

namespace PartLib.Ota

/-! ## The flash -/

/-- `esp_ota_img_states_t`. -/
inductive OtaImgState
  | new
  | pendingVerify
  | valid
  | invalid
  | aborted
  | undefined
  deriving DecidableEq, Repr

/-- The calls of `esp_ota_*` for an update, with the partition that it is for, which is `NULL` when there
is none. The handle of an update stands for its partition. -/
inductive OtaCall (π : Type)
  | begin (p : Option π)
  | write (p : Option π) (data : List UInt8)
  | finish (p : Option π)
  | setBoot (p : Option π)

/-- The partition that a call erases or writes. -/
def OtaCall.target {π : Type} : OtaCall π → Option π
  | .begin p | .write p _ => p
  | .finish _ | .setBoot _ => none

/-- A call that sets up the flash for another partition. -/
def OtaCall.switches {π : Type} : OtaCall π → Bool
  | .setBoot (some _) => true
  | .begin _ | .write _ _ | .finish _ | .setBoot none => false

/-- The boot loader and `esp_ota_*`, with partitions `π`, a flash `φ`, and `χ` for what nobody has a say
in, such as what a failed write leaves. A call returns an error code, or `none` when the power is lost
in the middle of it, and has no result where it cannot return so. -/
structure OtaApi (π φ χ : Type) where
  /-- What a partition holds. -/
  image : φ → π → List UInt8
  /-- The partition that the boot loader boots, and the flash then. -/
  boot : φ → π × φ
  /-- `esp_ota_get_next_update_partition`, while a partition is running. -/
  next_update_partition : π → Option π
  /-- A call for an update, while a partition is running. -/
  call : φ → π → OtaCall π → Option EspErr → χ → Option φ
  /-- `esp_ota_get_state_partition` can return so for a partition. -/
  state_partition : φ → π → EspErr → OtaImgState → Bool
  /-- `esp_ota_mark_app_valid_cancel_rollback`, while a partition is running. -/
  mark_app_valid : φ → π → Option EspErr → χ → Option φ

/-- What the documentation says of the boot loader and `esp_ota_*`, where `firmware` tells for which
partitions the flash is set up, `rollback` is the configuration of the boot loader, and `isImage` the
validation of an image. -/
structure OtaApi.Documented {π φ χ : Type} (api : OtaApi π φ χ) (firmware : φ → Firmware π)
    (rollback : Bool) (isImage : List UInt8 → Bool) : Prop where
  /-- A partition that has been switched to is booted at the next restart; with rollback, the one before
  it comes back at the restart after that, unless the image has been confirmed. -/
  restarts : ∀ f, firmware (api.boot f).2 = (firmware f).restart rollback
  boots : ∀ f, (api.boot f).1 = (firmware (api.boot f).2).running
  boot_image : ∀ f p, api.image (api.boot f).2 p = api.image f p
  /-- A call leaves all but its own partition, whatever comes of it. -/
  call_image : ∀ {f running c r x f' p}, api.call f running c r x = some f' → c.target ≠ some p →
    api.image f' p = api.image f p
  /-- `esp_ota_begin` touches neither the running partition nor, before the running image has been
  confirmed, any other one. -/
  begin_refuses : ∀ {f running p r x f'}, api.call f running (.begin (some p)) r x = some f' →
    api.image f' p = api.image f p ∨ p ≠ running ∧ (firmware f).isTrial = false
  /-- When `esp_ota_begin` succeeds, it has erased the partition. -/
  begin_erases : ∀ {f running q x f'}, api.call f running (.begin q) (some espOk) x = some f' →
    ∃ p, q = some p ∧ p ≠ running ∧ (firmware f).isTrial = false ∧ api.image f' p = []
  /-- When `esp_ota_write` succeeds, it has written the data after what was written before. -/
  write_appends : ∀ {f running p data x f'},
    api.call f running (.write (some p) data) (some espOk) x = some f' →
      api.image f' p = api.image f p ++ data
  /-- Only a switch changes what is booted. -/
  call_firmware : ∀ {f running c r x f'}, api.call f running c r x = some f' →
    c.switches = false → firmware f' = firmware f
  /-- `esp_ota_set_boot_partition` switches to a partition whose image is valid, or changes nothing: when
  it returns `ESP_OK` it has switched, when it returns an error it has not. -/
  switch : ∀ {f running p r x f'}, api.call f running (.setBoot (some p)) r x = some f' →
    firmware f' = firmware f ∧ r ≠ some espOk ∨
      isImage (api.image f p) = true ∧ (r = none ∨ r = some espOk) ∧
        ∀ q, firmware f = .confirmed q → firmware f' = .installed q p
  /-- The running image is waiting to be verified exactly when it is tried. -/
  pending : ∀ {f}, api.state_partition f (firmware f).running espOk .pendingVerify = true →
    (firmware f).isTrial = true
  /-- A mark that succeeds confirms the image, and one that returns an error changes nothing. -/
  mark : ∀ {f running r x f'}, api.mark_app_valid f running r x = some f' →
    firmware f' = firmware f ∧ r ≠ some espOk ∨
      firmware f' = (firmware f).confirm ∧ (r = none ∨ r = some espOk)
  mark_image : ∀ {f running r x f'}, api.mark_app_valid f running r x = some f' →
    ∀ p, api.image f' p = api.image f p

/-! ## `start_ota_http` -/

/-- The values of `httpd_uri_t`. -/
inductive HttpdUri
  | indexGet
  | updatePost
  | rebootPost
  deriving DecidableEq, Repr

/-- Where `start_ota_http` is: the call that comes next, or how it ended. -/
inductive StartPc
  | nvsInit
  | nvsErase
  | nvsInitAgain
  | httpdStart
  | register (uri : HttpdUri) (left : List HttpdUri)
  | getState
  | markValid
  | idle
  | aborted
  deriving DecidableEq

/-- What a call of `start_ota_http` returns: an error code, with the state of the running image for
`esp_ota_get_state_partition`. -/
structure StartAnswer where
  err : EspErr
  ota_state : OtaImgState := .undefined

/-- The calls of `start_ota_http`, with what they returned. -/
inductive StartCall
  | nvsFlashInit (e : EspErr)
  | nvsFlashErase (e : EspErr)
  | httpdStart (e : EspErr)
  | register (uri : HttpdUri) (e : EspErr)
  | getState (e : EspErr) (ota_state : OtaImgState)
  | markValid (e : EspErr)
  deriving DecidableEq

/-- One call of `start_ota_http`, and where the task is then. -/
def startStep : StartPc → StartAnswer → Option (StartPc × StartCall)
  | .nvsInit, ⟨e, _⟩ =>
    some
      (if e = espErrNvsNoFreePages ∨ e = espErrNvsNewVersionFound then .nvsErase
      else if e = espOk then .httpdStart else .aborted,
      .nvsFlashInit e)
  | .nvsErase, ⟨e, _⟩ => some (if e = espOk then .nvsInitAgain else .aborted, .nvsFlashErase e)
  | .nvsInitAgain, ⟨e, _⟩ => some (if e = espOk then .httpdStart else .aborted, .nvsFlashInit e)
  -- `http_server` stays `NULL` when the server does not start, which the caller checks.
  | .httpdStart, ⟨e, _⟩ =>
    some (if e = espOk then .register .indexGet [.updatePost, .rebootPost] else .aborted,
      .httpdStart e)
  -- What `httpd_register_uri_handler` returns is not looked at.
  | .register uri left, ⟨e, _⟩ =>
    some
      (match left with
      | [] => .getState
      | next :: left => .register next left,
      .register uri e)
  | .getState, ⟨e, ota_state⟩ =>
    some (if e = espOk ∧ ota_state = .pendingVerify then .markValid else .idle,
      .getState e ota_state)
  | .markValid, ⟨e, _⟩ => some (.idle, .markValid e)
  | .idle, _ | .aborted, _ => none

/-! ## The device -/

/-- The handler that the server runs. -/
inductive Serving (π : Type)
  | update (ota_partition : Option π) (u : UpdatePost)
  | reboot (left : List UpdateCall)

/-- The calls of `reboot_post_handler`, of which the last does not return. -/
def rebootPostHandler : List UpdateCall := [.sendStr "OK, Rebooting now!", .delay, .restart]

/-- The device. -/
structure OtaDevice (π φ : Type) where
  flash : φ
  running : π
  start : StartPc
  uris : List HttpdUri
  serving : Option (Serving π)

/-- What happens next: a call of `start_ota_http` returns; a request comes in; a call of the handler
returns; or the device loses its power. -/
inductive DeviceInput (χ : Type)
  | start (a : StartAnswer) (x : χ)
  | updatePost (body : List UInt8) (buf : RecvBuf)
  | rebootPost
  | answer (a : UpdateAnswer) (x : χ)
  | powerLoss (x : χ)

/-- What is seen: the calls, an update that is asked for or refused, and the image that is booted. -/
inductive DeviceOut
  | start (c : StartCall)
  | call (c : UpdateCall)
  | requested (body : List UInt8)
  | refused
  | boots (image : List UInt8)
  deriving DecidableEq

/-- The call of `esp_ota_*` that the handler makes next, if it makes one. -/
def UpdatePost.otaCall {π : Type} (ota_partition : Option π) (u : UpdatePost) : Option (OtaCall π) :=
  match u.pc with
  | .begin => some (.begin ota_partition)
  | .write recv_len => some (.write ota_partition (u.buf.bytes.take (sizeOfInt recv_len)))
  | .otaEnd => some (.finish ota_partition)
  | .setBoot => some (.setBoot ota_partition)
  | _ => none

/-- The call of `esp_ota_*` that the server makes. -/
def Serving.otaCall {π : Type} : Serving π → Option (OtaCall π)
  | .update ota_partition u => u.otaCall ota_partition
  | .reboot _ => none

section

variable {π φ χ : Type} (api : OtaApi π φ χ)

/-- The device after a restart, with what it boots. -/
def OtaApi.restart (f : φ) : OtaDevice π φ × DeviceOut :=
  let r := api.boot f
  (⟨r.2, r.1, .nvsInit, [], none⟩, .boots (api.image r.2 r.1))

/-- The device after a call of `start_ota_http`, if the call can return so. -/
def OtaDevice.afterStart (d : OtaDevice π φ) (x : χ) : StartCall → Option (OtaDevice π φ)
  | .register uri e => some (if e = espOk then { d with uris := uri :: d.uris } else d)
  | .getState e ota_state => if api.state_partition d.flash d.running e ota_state then some d else none
  | .markValid e => (api.mark_app_valid d.flash d.running (some e) x).map fun f => { d with flash := f }
  | _ => some d

/-- The flash when the power is lost, as far as the call is concerned that the server makes. -/
def OtaDevice.callBroken (d : OtaDevice π φ) (x : χ) : Option φ :=
  match d.serving.bind Serving.otaCall with
  | some c => api.call d.flash d.running c none x
  | none => some d.flash

/-- The flash when the power is lost, in the middle of the calls that are made. -/
def OtaDevice.brokenOff (d : OtaDevice π φ) (x : χ) : Option φ :=
  (d.callBroken api x).bind fun f =>
    if d.start = .markValid then api.mark_app_valid f d.running none x else some f

/-- The flash after a call of the handler, if the call can return so. -/
def OtaApi.flashAfter (f : φ) (running : π) (ota_partition : Option π) (u : UpdatePost) (x : χ) :
    UpdateAnswer → Option φ
  | .err e =>
    match u.otaCall ota_partition with
    | some c => api.call f running c (some e) x
    | none => some f
  | _ => some f

/-- The handler of an upload makes a call. -/
def OtaDevice.updateAnswer (d : OtaDevice π φ) (ota_partition : Option π) (u : UpdatePost)
    (a : UpdateAnswer) (x : χ) : Option (OtaDevice π φ × List DeviceOut) := do
  let (u', c) ← updateStep u u.pc a
  let f ← api.flashAfter d.flash d.running ota_partition u x a
  match u'.pc with
  | .returned _ => return ({ d with flash := f, serving := none }, [.call c, .refused])
  -- A check that fails restarts the device, as `esp_restart` does.
  | .restarted | .aborted => return ((api.restart f).1, [.call c, (api.restart f).2])
  | _ => return ({ d with flash := f, serving := some (.update ota_partition u') }, [.call c])

/-- The device, from the first boot on, with the flash that it has been delivered with. A handler is
reached when its URI has been registered, and `content_len` has 32 bits. -/
def otaDevice (f₀ : φ) : Machine (OtaDevice π φ) (DeviceInput χ) DeviceOut where
  init := (api.restart f₀).1
  step d i :=
    match i, d.serving with
    | .start a x, _ => do
      let (start', c) ← startStep d.start a
      let d' ← d.afterStart api x c
      if start' = .aborted then
        return ((api.restart d'.flash).1, [.start c, (api.restart d'.flash).2])
      else
        return ({ d' with start := start' }, [.start c])
    | .updatePost body buf, none =>
      if .updatePost ∈ d.uris ∧ body.length < 2 ^ 32 then
        some
          ({ d with
            serving := some (.update (api.next_update_partition d.running)
              (updatePostHandler body buf).init) }, [.requested body])
      else
        none
    | .rebootPost, none =>
      if .rebootPost ∈ d.uris then some ({ d with serving := some (.reboot rebootPostHandler) }, [])
      else none
    | .answer a x, some (.update ota_partition u) => d.updateAnswer api ota_partition u a x
    | .answer .done _, some (.reboot (c :: left)) =>
      if c = .restart then some ((api.restart d.flash).1, [.call c, (api.restart d.flash).2])
      else some ({ d with serving := some (.reboot left) }, [.call c])
    | .powerLoss x, _ =>
      (d.brokenOff api x).map fun f => ((api.restart f).1, [(api.restart f).2])
    | _, _ => none

end

end PartLib.Ota
