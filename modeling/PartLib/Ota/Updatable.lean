import PartLib.Ota.Updates
import PartLib.Lib.Reaches

/-!
# The device can be updated

Whatever has happened to a device, it can still be given a new image: when the power is lost and comes
back, `start_ota_http` marks what runs as valid, and an upload whose calls succeed is then booted and
marked as valid in turn (`update_possible`). So a refusal of `update_post_handler`, an update that was
not verified, or an operation that was left open does not stay in the way.
-/

namespace PartLib.Ota

/-- What the documentation says of the calls that have what they need: they can succeed. `opened` tells
for which partitions there is a handle, and `size` is the size of each. -/
structure OtaApi.Serves {π φ χ : Type} (api : OtaApi π φ χ) (firmware : φ → Firmware π)
    (isImage : List UInt8 → Bool) (opened : φ → π → Prop) (size : π → ℕ) : Prop where
  begins : ∀ f running p, p ≠ running → (firmware f).isTrial = false →
    ∃ x f', api.call f running (.begin (some p)) (some espOk) x = some f' ∧ opened f' p
  writes : ∀ f running p data, opened f p → (api.image f p).length + data.length ≤ size p →
    ∃ x f', api.call f running (.write (some p) data) (some espOk) x = some f' ∧ opened f' p
  finishes : ∀ f running p, opened f p → isImage (api.image f p) = true →
    ∃ x f', api.call f running (.finish (some p)) (some espOk) x = some f'
  switches : ∀ f running p, isImage (api.image f p) = true →
    ∃ x f', api.call f running (.setBoot (some p)) (some espOk) x = some f'
  marks : ∀ f running, ∃ x f', api.mark_app_valid f running (some espOk) x = some f'
  /-- The state of the running image is that it is waiting to be verified exactly when it is tried. -/
  states : ∀ f, ∃ e ota_state, api.state_partition f (firmware f).running e ota_state = true ∧
    (e = espOk ∧ ota_state = .pendingVerify ↔ (firmware f).isTrial = true)
  /-- The power can be lost at any time. -/
  breaks : ∀ f running c, ∃ x f', api.call f running c none x = some f'
  marks_break : ∀ f running x, ∃ f', api.mark_app_valid f running none x = some f'

section

variable {π φ χ : Type} {api : OtaApi π φ χ} {firmware : φ → Firmware π} {rollback : Bool}
  {isImage : List UInt8 → Bool} {opened : φ → π → Prop} {size : π → ℕ} {f₀ f : φ}
  {d : OtaDevice π φ} {running p : π}

/-- The URIs, when all of them have been registered. -/
def allUris : List HttpdUri := [.rebootPost, .updatePost, .indexGet]

variable (f₀) in
/-- After a restart, `start_ota_http` can come to its end, with the running image confirmed. -/
theorem start_reaches (hapi : api.Documented firmware rollback isImage)
    (hserves : api.Serves firmware isImage opened size) (hrunning : running = (firmware f).running)
    (hinstalled : (firmware f).isInstalled = false) :
    ∃ f', (otaDevice api f₀).Reaches ⟨f, running, .nvsInit, [], none⟩
        ⟨f', running, .idle, allUris, none⟩ ∧ firmware f' = .confirmed running ∧
          api.image f' running = api.image f running := by
  obtain ⟨x, f₁, hmark⟩ := hserves.marks f running
  have hbegin : (otaDevice api f₀).Reaches ⟨f, running, .nvsInit, [], none⟩
      ⟨f, running, .getState, allUris, none⟩ :=
    ⟨List.replicate 5 (.start ⟨espOk, .undefined⟩ x), _, rfl⟩
  obtain ⟨e, ota_state, hanswer, hiff⟩ := hserves.states f
  rw [← hrunning] at hanswer
  have hget : (otaDevice api f₀).step ⟨f, running, .getState, allUris, none⟩
      (.start ⟨e, ota_state⟩ x) = some
        (⟨f, running, if (firmware f).isTrial then .markValid else .idle, allUris, none⟩,
          [.start (.getState e ota_state)]) := by
    by_cases htrial : (firmware f).isTrial = true
    · obtain ⟨rfl, rfl⟩ := hiff.mpr htrial
      simp [otaDevice, startStep, OtaDevice.afterStart, hanswer, htrial]
    · simp [otaDevice, startStep, OtaDevice.afterStart, hanswer, htrial, hiff]
  by_cases htrial : (firmware f).isTrial = true
  · rw [if_pos htrial] at hget
    refine ⟨f₁, hbegin.trans (.head hget ?_), ?_, hapi.mark_image hmark running⟩
    · exact .head (i := .start ⟨espOk, .undefined⟩ x)
        (by simp [otaDevice, startStep, OtaDevice.afterStart, hmark]; rfl) (.refl _)
    · rcases hapi.mark hmark with ⟨-, hne⟩ | ⟨hfirmware, -⟩
      · exact absurd rfl hne
      · rw [hfirmware, hrunning]
        cases hf : firmware f with
        | trial old p => rfl
        | _ =>
          rw [hf] at htrial
          cases htrial
  · rw [if_neg htrial] at hget
    refine ⟨f, hbegin.trans (.head hget (.refl _)), ?_, rfl⟩
    rw [hrunning]
    exact Firmware.eq_confirmed hinstalled (Bool.eq_false_of_not_eq_true htrial)

/-- A call of the handler of an upload returns, and the handler goes on. -/
theorem update_head {ota_partition : Option π} {u u' : UpdatePost} {a : UpdateAnswer} {c : UpdateCall}
    {f' : φ} {d' : OtaDevice π φ} {x : χ} (hserving : d.serving = some (.update ota_partition u))
    (hcall : updateStep u u.pc a = some (u', c))
    (hflash : api.flashAfter d.flash d.running ota_partition u x a = some f')
    (hgoes : ¬ u'.pc.Ended)
    (h : (otaDevice api f₀).Reaches
      { d with flash := f', serving := some (.update ota_partition u') } d') :
    (otaDevice api f₀).Reaches d d' := by
  have hstep : (otaDevice api f₀).step d (.answer a x) =
      some ({ d with flash := f', serving := some (.update ota_partition u') }, [.call c]) := by
    simp only [otaDevice, hserving, OtaDevice.updateAnswer, hcall, hflash, Option.bind_eq_bind,
      Option.bind_some]
    cases hpc : u'.pc <;> simp [hpc, UpdatePc.Ended] at hgoes ⊢
  exact .head hstep h

/-- The head of the loop is not an end. -/
theorem loopHead_goes_on (remaining : ℤ) : ¬ (loopHead remaining).Ended := by
  unfold loopHead
  split_ifs
  · exact id
  · exact id

/-- A piece of the body can be received and written. -/
theorem piece_received {u : UpdatePost} {k : ℕ} (hpc : u.pc = loopHead u.remaining)
    (hrem : u.remaining = u.unread.length) (hlen : u.unread.length ≤ intMax) (hpos : 0 < k)
    (hk : k ≤ min u.unread.length sizeofBuf) :
    ∃ u₁ u₂ asked, updateStep u u.pc (.len k) = some (u₁, .recv asked k) ∧ u₁.pc = .write k ∧
      updateStep u₁ u₁.pc (.err espOk) = some (u₂, .otaWrite (u.unread.take k) espOk) ∧
      u₂.pc = loopHead u₂.remaining ∧ u₂.remaining = u₂.unread.length ∧
      u₂.unread = u.unread.drop k ∧ u₁.buf.bytes.take (sizeOfInt k) = u.unread.take k := by
  obtain ⟨hle, -⟩ := le_min_iff.mp hk
  have hsize : (k : ℤ) ≤ recvSize u.remaining := by
    rw [hrem, recvSize_natCast hlen]
    exact_mod_cast hk
  have hpiece : (u.received k).length = k := by
    rw [UpdatePost.received, Int.toNat_natCast, List.length_take, min_eq_left hle]
  have hloop : u.pc = .recv := by
    rw [hpc, loopHead, if_pos (by omega)]
  have htimeout : (k : ℤ) ≠ httpdSockErrTimeout := by
    unfold httpdSockErrTimeout
    omega
  -- What is written is the start of the buffer, where the piece is.
  have hdata : (u.buf.recv (u.received k) (u.length_received_le hsize)).bytes.take (sizeOfInt k) =
      u.unread.take k := by
    have hstart := u.buf.take_recv (u.length_received_le hsize)
    rw [hpiece] at hstart
    rw [sizeOfInt_natCast (hle.trans hlen), hstart, UpdatePost.received, Int.toNat_natCast]
  refine ⟨{ u with
      pc := .write k
      buf := u.buf.recv (u.received k) (u.length_received_le hsize)
      unread := u.unread.drop k },
    { u with
      pc := loopHead (u.remaining - k)
      remaining := u.remaining - k
      buf := u.buf.recv (u.received k) (u.length_received_le hsize)
      unread := u.unread.drop k }, recvSize u.remaining, ?_, rfl, ?_, rfl, ?_, rfl, hdata⟩
  · rw [hloop]
    simp only [updateStep, dif_pos hsize, if_neg htimeout, Int.toNat_natCast]
    rw [if_neg (by omega)]
  · simp only [updateStep, if_pos, hdata]
  · simp only [hrem, List.length_drop]
    omega

variable (f₀) in
/-- The loop of an upload can come to its end, with all of the body written and all else as it was. -/
theorem loop_reaches (hapi : api.Documented firmware rollback isImage)
    (hserves : api.Serves firmware isImage opened size) (n : ℕ) :
    ∀ {d : OtaDevice π φ} {u : UpdatePost}, u.unread.length = n →
    d.serving = some (.update (some p) u) → u.pc = loopHead u.remaining →
    u.remaining = u.unread.length → u.unread.length ≤ intMax →
    opened d.flash p → (api.image d.flash p).length + u.unread.length ≤ size p →
    ∃ u' f', u'.pc = .otaEnd ∧ opened f' p ∧ (otaDevice api f₀).Reaches d
        { d with flash := f', serving := some (.update (some p) u') } ∧
      firmware f' = firmware d.flash ∧ api.image f' p = api.image d.flash p ++ u.unread ∧
      ∀ q, q ≠ p → api.image f' q = api.image d.flash q := by
  induction n using Nat.strong_induction_on with
  | _ n ih =>
    intro d u hn hserving hpc hrem hlen hopened hsize
    by_cases hnil : u.unread = []
    · have hend : u.pc = .otaEnd := by
        rw [hpc, hrem, hnil]
        rfl
      refine ⟨u, d.flash, hend, hopened, ?_, rfl, by rw [hnil, List.append_nil], fun _ _ => rfl⟩
      rw [← hserving]
      exact .refl _
    · -- One piece is received and written, and then the others.
      have hpos : 0 < u.unread.length := List.length_pos_iff.mpr hnil
      have hkpos : 0 < min u.unread.length sizeofBuf := lt_min hpos (by decide)
      obtain ⟨u₁, u₂, asked, hrecv, hpc₁, hwrite, hpc₂, hrem₂, hunread₂, hdata⟩ :=
        piece_received hpc hrem hlen hkpos le_rfl
      obtain ⟨k, hk⟩ : ∃ k, k = min u.unread.length sizeofBuf := ⟨_, rfl⟩
      rw [← hk] at hrecv hwrite hunread₂ hdata hpc₁
      have hfits : (api.image d.flash p).length + (u.unread.take k).length ≤ size p := by
        rw [List.length_take]
        omega
      obtain ⟨x, f₁, hcall, hopened₁⟩ := hserves.writes _ d.running _ _ hopened hfits
      have himage₁ := hapi.write_appends hcall
      have hless : u₂.unread.length < n := by
        rw [hunread₂, List.length_drop]
        omega
      have hsize₂ : (api.image f₁ p).length + u₂.unread.length ≤ size p := by
        rw [himage₁, hunread₂, List.length_append, List.length_take, List.length_drop]
        omega
      obtain ⟨u', f', hend, hopened', hreach, hfirmware, himage, hothers⟩ :=
        ih u₂.unread.length hless
          (d := { d with flash := f₁, serving := some (.update (some p) u₂) }) rfl rfl hpc₂ hrem₂
          (by omega) hopened₁ hsize₂
      refine ⟨u', f', hend, hopened', ?_, ?_, ?_, fun q hq => ?_⟩
      · refine update_head (x := x) hserving hrecv rfl (by rw [hpc₁]; exact id) ?_
        refine update_head (x := x) rfl hwrite ?_ (hpc₂ ▸ loopHead_goes_on _) hreach
        simp only [OtaApi.flashAfter, UpdatePost.otaCall, hpc₁, hdata]
        exact hcall
      · exact hfirmware.trans (hapi.call_firmware hcall rfl)
      · rw [himage, himage₁, hunread₂, List.append_assoc, List.take_append_drop]
      · refine (hothers q hq).trans (hapi.call_image hcall fun heq => hq ?_)
        exact (Option.some.inj heq).symm

/-- When the update has begun, all of the body is unread. -/
theorem update_begun {body : List UInt8} (hlen : body.length ≤ intMax) :
    ∃ u, updateStep (updatePostHandler body zeroBuf).init .begin (.err espOk) =
        some (u, .otaBegin espOk) ∧ u.pc = loopHead u.remaining ∧ u.remaining = u.unread.length ∧
      u.unread = body := by
  refine ⟨{ (updatePostHandler body zeroBuf).init with pc := loopHead (intOfSize body.length) },
    ?_, ?_, ?_, rfl⟩
  · simp only [updateStep, updatePostHandler, if_pos]
  · simp only [updatePostHandler]
  · simp only [updatePostHandler]
    exact intOfSize_of_le hlen

variable (f₀) in
/-- An upload of a valid image can come to its end when nothing else is going on. -/
theorem upload_reaches (hapi : api.Documented firmware rollback isImage)
    (hserves : api.Serves firmware isImage opened size) {body : List UInt8} (hidle : d.serving = none)
    (huris : .updatePost ∈ d.uris) (hconfirmed : firmware d.flash = .confirmed d.running)
    (hnext : api.next_update_partition d.running = some p) (hne : p ≠ d.running)
    (hvalid : isImage body = true) (hlen : body.length ≤ intMax) (hsize : body.length ≤ size p) :
    ∃ f', (otaDevice api f₀).Reaches d (api.restart f').1 ∧
      firmware f' = .installed d.running p ∧ api.image f' p = body := by
  -- The request comes in, and the update begins.
  have hpost : (otaDevice api f₀).step d (.updatePost body zeroBuf) = some
      ({ d with serving := some (.update (some p) (updatePostHandler body zeroBuf).init) },
        [.requested body]) := by
    have hbound : body.length < 2 ^ 32 := lt_of_le_of_lt hlen (by decide)
    simp only [otaDevice, hidle, if_pos (And.intro huris hbound), hnext]
  have htrial : (firmware d.flash).isTrial = false := by rw [hconfirmed]; rfl
  obtain ⟨u₁, hbegin, hpc₁, hrem₁, hunread₁⟩ := update_begun hlen
  obtain ⟨x, f₁, hcall₁, hopened₁⟩ := hserves.begins _ _ p hne htrial
  have himage₁ : api.image f₁ p = [] := by
    obtain ⟨q, hq, -, -, himage⟩ := hapi.begin_erases hcall₁
    rw [Option.some.inj hq]
    exact himage
  -- The body is written.
  obtain ⟨u, f₂, hend, hopened₂, hloop, hfirmware₂, himage₂, -⟩ :=
    loop_reaches f₀ hapi hserves body.length
    (d := { d with flash := f₁, serving := some (.update (some p) u₁) }) (u := u₁)
    (by rw [hunread₁]) rfl hpc₁ hrem₁ (by rwa [hunread₁]) hopened₁
    (by rw [himage₁, hunread₁]; simpa using hsize)
  have hbody : api.image f₂ p = body := by rw [himage₂, himage₁, hunread₁, List.nil_append]
  have hconfirmed₂ : firmware f₂ = .confirmed d.running :=
    (hfirmware₂.trans (hapi.call_firmware hcall₁ rfl)).trans hconfirmed
  -- The image is valid, and is switched to.
  obtain ⟨y, f₃, hcall₃⟩ := hserves.finishes f₂ d.running p hopened₂ (by rwa [hbody])
  have hbody₃ : api.image f₃ p = body := (hapi.call_images hcall₃ rfl p).trans hbody
  obtain ⟨z, f₄, hcall₄⟩ := hserves.switches f₃ d.running p (by rwa [hbody₃])
  have hconfirmed₃ : firmware f₃ = .confirmed d.running :=
    (hapi.call_firmware hcall₃ rfl).trans hconfirmed₂
  have hended : updateStep u u.pc (.err espOk) = some ({ u with pc := .setBoot }, .otaEnd espOk) := by
    rw [hend]
    rfl
  have hfinish : api.flashAfter f₂ d.running (some p) u y (.err espOk) = some f₃ := by
    simp only [OtaApi.flashAfter, UpdatePost.otaCall, hend]
    exact hcall₃
  refine ⟨f₄, ?_, ?_, (hapi.call_images hcall₄ rfl p).trans hbody₃⟩
  · refine .head hpost (update_head (x := x) rfl hbegin hcall₁ (hpc₁ ▸ loopHead_goes_on _)
      (hloop.trans ?_))
    refine update_head rfl hended hfinish id ?_
    refine update_head (x := z) (a := .err espOk) rfl rfl hcall₄ id ?_
    refine update_head (x := x) (a := .done) rfl rfl rfl id ?_
    refine update_head (x := x) (a := .done) rfl rfl rfl id ?_
    exact .head (i := .answer .done x) rfl (.refl _)
  · rcases hapi.switch hcall₄ with ⟨-, hfails⟩ | ⟨-, -, hswitch⟩
    · exact absurd rfl hfails
    · exact hswitch _ hconfirmed₃

variable (f₀) in
/-- The power can be lost in every state. -/
theorem power_lost (hserves : api.Serves firmware isImage opened size) (d : OtaDevice π φ) :
    ∃ f, (otaDevice api f₀).Reaches d (api.restart f).1 := by
  obtain ⟨x, f₁, hcall⟩ : ∃ x f₁, d.callBroken api x = some f₁ := by
    unfold OtaDevice.callBroken
    cases hc : d.serving.bind Serving.otaCall with
    | none =>
      obtain ⟨x, -⟩ := hserves.marks d.flash d.running
      exact ⟨x, d.flash, rfl⟩
    | some c => exact hserves.breaks d.flash d.running c
  obtain ⟨f, hbroken⟩ : ∃ f, d.brokenOff api x = some f := by
    rw [OtaDevice.brokenOff, hcall, Option.bind_some]
    split_ifs
    · exact hserves.marks_break f₁ d.running x
    · exact ⟨f₁, rfl⟩
  have hlost : (otaDevice api f₀).step d (.powerLoss x) =
      some ((api.restart f).1, [(api.restart f).2]) := by
    simp only [otaDevice, hbroken, Option.map_some]
  exact ⟨f, .head hlost (.refl _)⟩

end

/-- The calls for the two partitions can succeed, with partitions of any size. -/
theorem twoSlots_serves (size : Bool → ℕ) :
    twoSlots.Serves SlotFlash.firmware startsWithMagic (fun _ _ => True) size where
  begins _ _ _ hne htrial := by
    simp only [twoSlots, if_pos (And.intro hne htrial)]
    exact ⟨[], _, rfl, trivial⟩
  writes _ _ _ _ _ _ := ⟨[], _, rfl, trivial⟩
  finishes f _ p _ hvalid := ⟨[], f, by
    have hvalid : startsWithMagic (f.image p) = true := hvalid
    simp [twoSlots, hvalid]⟩
  switches f _ p hvalid := by
    have hvalid : startsWithMagic (f.image p) = true := hvalid
    simp only [twoSlots, hvalid, if_true]
    exact ⟨[], _, rfl⟩
  marks _ _ := ⟨[], _, rfl⟩
  states f := by
    cases htrial : f.firmware.isTrial with
    | false => exact ⟨espFail, .undefined, by simp [twoSlots, htrial], by simp [espFail, espOk]⟩
    | true => exact ⟨espOk, .pendingVerify, by simp [twoSlots, htrial], by simp⟩
  breaks f running c := by
    rcases c with (_ | q) | ⟨_ | q, data⟩ | (_ | q) | (_ | q)
    case begin.some =>
      simp only [twoSlots, reduceCtorEq, if_false]
      split_ifs
      · exact ⟨[], _, rfl⟩
      · exact ⟨[], _, rfl⟩
    all_goals simp [twoSlots]
  marks_break f _ x := ⟨f, rfl⟩

end PartLib.Ota
