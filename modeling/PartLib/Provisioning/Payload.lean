import PartLib.Lib.CString
import PartLib.Lib.FlatObject
import Mathlib.Data.Fin.VecNotation

/-!
# What the device says of itself

The name of the provisioning service is made from the last three bytes of the MAC address, and the
payload for a provisioning application is an object with this name. Both are written with `snprintf`
into arrays of fixed sizes, and cut when they do not fit.

A payload that fits is read as what it was written from, and one that does not is not read as anything
(`payload_reads`). The name and the payload of `setup_provisioning` always fit, and they tell devices
apart by the last three bytes of their addresses (`service_payload`).
-/

namespace PartLib.Provisioning

/-- `snprintf` into an array of which it is told the size, where `text` is what the format produces:
the beginning that fits, and a null character. -/
def snprintf (buf text : List UInt8) : List UInt8 :=
  splice buf 0 (text.take (buf.length - 1) ++ [0])

/-- A hexadecimal digit, with capital letters. -/
def hexDigit (n : ℕ) : UInt8 := UInt8.ofNat (if n < 10 then 0x30 + n else 0x37 + n)

/-- A byte with the format `%02X`. -/
def hexByte (b : UInt8) : List UInt8 := [hexDigit (b.toNat / 16), hexDigit (b.toNat % 16)]

/-- The text of `get_device_service_name`, for the address `eth_mac`. -/
def serviceName (eth_mac : Fin 6 → UInt8) : List UInt8 :=
  ascii "PROV_" ++ hexByte (eth_mac 3) ++ hexByte (eth_mac 4) ++ hexByte (eth_mac 5)

/-- `get_device_service_name`. -/
def getDeviceServiceName (eth_mac : Fin 6 → UInt8) (service_name : List UInt8) : List UInt8 :=
  snprintf service_name (serviceName eth_mac)

/-- `PROV_QR_VERSION`. -/
def provQrVersion : List UInt8 := ascii "v1"

/-- `PROV_TRANSPORT_SOFTAP`, or with the scheme for Bluetooth `PROV_TRANSPORT_BLE`. -/
def provTransport (ble : Bool) : List UInt8 := if ble then ascii "ble" else ascii "softap"

/-- The proof of possession of `setup_provisioning`. -/
def provPop : List UInt8 := ascii "abcd1234"

/-- The text of the payload. -/
def payloadText (name : List UInt8) (pop : Option (List UInt8)) (transport : List UInt8) :
    List UInt8 :=
  match pop with
  | some pop =>
    ascii "\x7b\"ver\":\"" ++ provQrVersion ++ ascii "\",\"name\":\"" ++ name ++
      ascii "\",\"pop\":\"" ++ pop ++ ascii "\",\"transport\":\"" ++ transport ++ ascii "\"\x7d"
  | none =>
    ascii "\x7b\"ver\":\"" ++ provQrVersion ++ ascii "\",\"name\":\"" ++ name ++
      ascii "\",\"transport\":\"" ++ transport ++ ascii "\"\x7d"

/-- `wifi_prov_print_qr`, where a null pointer is `none`: the array `payload` that it prints from, or
nothing when data is missing. -/
def wifiProvPrintQr (name pop transport : Option (List UInt8)) : Option (List UInt8) :=
  match name, transport with
  | some name, some transport =>
    some (snprintf (List.replicate 150 0) (payloadText name pop transport))
  | _, _ => none

/-! ## What is read -/

/-- What the payload is written from. -/
def payloadMembers (name : List UInt8) (pop : Option (List UInt8)) (transport : List UInt8) :
    List Member :=
  ⟨ascii "ver", provQrVersion⟩ :: ⟨ascii "name", name⟩ ::
    (pop.toList.map fun pop => ⟨ascii "pop", pop⟩) ++ [⟨ascii "transport", transport⟩]

/-- The payload is the object of these members. -/
theorem payloadText_eq (name : List UInt8) (pop : Option (List UInt8)) (transport : List UInt8) :
    payloadText name pop transport = objectText (payloadMembers name pop transport) := by
  cases pop with
  | none => simp [payloadText, payloadMembers, objectText, membersText, Member.text, quoted, ascii,
      openBrace, closeBrace, quote, colon, comma]
  | some pop => simp [payloadText, payloadMembers, objectText, membersText, Member.text, quoted, ascii,
      openBrace, closeBrace, quote, colon, comma]

/-- What an array holds after `snprintf`. -/
theorem cstr_snprintf {buf text : List UInt8} (hbuf : buf ≠ []) (htext : 0 ∉ text) :
    cstr (snprintf buf text) = some (text.take (buf.length - 1)) := by
  have hlen : 0 < buf.length := List.length_pos_iff.mpr hbuf
  unfold snprintf splice
  rw [List.take_zero, List.nil_append, List.append_assoc]
  exact cstr_append fun h => htext (List.mem_of_mem_take h)

/-- Every character stands for itself. -/
def Plain (s : List UInt8) : Prop := ∀ c ∈ s, IsPlain c

-- Decided along the text, and not over all the values of a byte.
instance : DecidablePred Plain := fun s => List.decidableBAll _ s

/-- The members can be written without escapes. -/
theorem payloadMembers_isPlain {name transport : List UInt8} {pop : Option (List UInt8)}
    (hname : Plain name) (hpop : ∀ p ∈ pop, Plain p) (htransport : Plain transport) :
    ∀ m ∈ payloadMembers name pop transport, m.IsPlain := by
  intro m hm
  simp only [payloadMembers, List.cons_append, List.mem_cons, List.mem_append, List.mem_map,
    Option.mem_toList, List.not_mem_nil, or_false] at hm
  rcases hm with rfl | rfl | ⟨p, hp, rfl⟩ | rfl
  · exact ⟨(by decide : Plain (ascii "ver")), (by decide : Plain provQrVersion)⟩
  · exact ⟨(by decide : Plain (ascii "name")), hname⟩
  · exact ⟨(by decide : Plain (ascii "pop")), hpop p hp⟩
  · exact ⟨(by decide : Plain (ascii "transport")), htransport⟩

/-- No such character is null. -/
theorem Plain.zero_notMem {s : List UInt8} (hs : Plain s) : 0 ∉ s := by
  intro h
  exact absurd (hs 0 h) (by decide)

/-- The payload has no null character. -/
theorem zero_notMem_payloadText {name transport : List UInt8} {pop : Option (List UInt8)}
    (hname : Plain name) (hpop : ∀ p ∈ pop, Plain p) (htransport : Plain transport) :
    0 ∉ payloadText name pop transport := by
  have hname₀ := hname.zero_notMem
  have htransport₀ := htransport.zero_notMem
  cases pop with
  | none => simp [payloadText, ascii, provQrVersion, hname₀, htransport₀]
  | some p =>
    have hpop₀ := (hpop p rfl).zero_notMem
    simp [payloadText, ascii, provQrVersion, hname₀, hpop₀, htransport₀]

/-- A payload is printed that is read as what it was written from, if it has at most 149 characters,
and is not read as anything otherwise. -/
theorem payload_reads {name transport : List UInt8} {pop : Option (List UInt8)} (hname : Plain name)
    (hpop : ∀ p ∈ pop, Plain p) (htransport : Plain transport) :
    ∃ payload s, wifiProvPrintQr (some name) pop (some transport) = some payload ∧
      cstr payload = some s ∧ readObject s =
        if (payloadText name pop transport).length < 150 then
          some (payloadMembers name pop transport)
        else none := by
  have hplain := payloadMembers_isPlain hname hpop htransport
  have hne : payloadMembers name pop transport ≠ [] := by simp [payloadMembers]
  refine ⟨_, _, rfl, cstr_snprintf (by simp)
    (zero_notMem_payloadText hname hpop htransport), ?_⟩
  rw [List.length_replicate]
  split_ifs with hfits
  · rw [List.take_of_length_le (by omega), payloadText_eq]
    exact readObject_eq_some.mpr ⟨hne, hplain, rfl⟩
  · refine readObject_eq_none hne hplain ?_ ?_
    · rw [← payloadText_eq]
      exact List.take_prefix _ _
    · intro h
      have hlen := congrArg List.length h
      rw [← payloadText_eq, List.length_take] at hlen
      omega

/-- Without a proof of possession, a short name. -/
theorem payload_reads_short :
    ∃ payload s, wifiProvPrintQr (some (ascii "a")) none (some (ascii "ble")) = some payload ∧
      cstr payload = some s ∧ readObject s =
        if (payloadText (ascii "a") none (ascii "ble")).length < 150 then
          some (payloadMembers (ascii "a") none (ascii "ble"))
        else none :=
  payload_reads (by decide) (by simp) (by decide)

/-! ## The name and the payload of a device -/

/-- Different digits are written differently. -/
theorem hexDigit_inj : ∀ m < 16, ∀ n < 16, hexDigit m = hexDigit n → m = n := by decide

/-- Digits stand for themselves. -/
theorem hexDigit_isPlain : ∀ n < 16, IsPlain (hexDigit n) := by decide

/-- A byte is told by its digits. -/
theorem hexByte_inj {a b : UInt8} (h : hexByte a = hexByte b) : a = b := by
  have ha := a.toNat_lt
  have hb := b.toNat_lt
  obtain ⟨hhigh, hlow⟩ := List.cons.inj h
  have h₁ := hexDigit_inj _ (by omega) _ (by omega) hhigh
  have h₂ := hexDigit_inj _ (by omega) _ (by omega) (List.cons.inj hlow).1
  apply UInt8.toNat_inj.mp
  omega

/-- The digits of a byte stand for themselves. -/
theorem hexByte_isPlain (b : UInt8) : Plain (hexByte b) := by
  have hb := b.toNat_lt
  intro c hc
  rcases List.mem_cons.mp hc with rfl | hc
  · exact hexDigit_isPlain _ (by omega)
  · obtain rfl := List.mem_singleton.mp hc
    exact hexDigit_isPlain _ (by omega)

/-- So do the characters of a name. -/
theorem serviceName_isPlain (eth_mac : Fin 6 → UInt8) : Plain (serviceName eth_mac) := by
  intro c hc
  simp only [serviceName, List.mem_append] at hc
  rcases hc with ((hc | hc) | hc) | hc
  · exact (by decide : Plain (ascii "PROV_")) c hc
  · exact hexByte_isPlain _ c hc
  · exact hexByte_isPlain _ c hc
  · exact hexByte_isPlain _ c hc

theorem length_serviceName (eth_mac : Fin 6 → UInt8) : (serviceName eth_mac).length = 11 := rfl

/-- Two devices have the same name if and only if the last three bytes of their addresses are. -/
theorem serviceName_inj {mac mac' : Fin 6 → UInt8} :
    serviceName mac = serviceName mac' ↔ ∀ i, 3 ≤ i → mac i = mac' i := by
  constructor
  · intro h
    simp only [serviceName, List.append_assoc, List.append_cancel_left_eq] at h
    obtain ⟨h₃, h⟩ := List.append_inj h rfl
    obtain ⟨h₄, h₅⟩ := List.append_inj h rfl
    rintro ⟨i, hlt⟩ hi
    have hle : 3 ≤ i := hi
    obtain rfl | rfl | rfl : i = 3 ∨ i = 4 ∨ i = 5 := by omega
    · exact hexByte_inj h₃
    · exact hexByte_inj h₄
    · exact hexByte_inj h₅
  · intro h
    unfold serviceName
    rw [h 3 (by decide), h 4 (by decide), h 5 (by decide)]

/-- The name of the service fits into its array, and the payload that is printed for it into its own.
It is read as the version, the name, the proof of possession and the transport, and it is the payload
of another device if and only if the last three bytes of their addresses are the same. -/
theorem service_payload (eth_mac : Fin 6 → UInt8) (service_name : List UInt8) (ble : Bool)
    (hsize : service_name.length = 12) :
    ∃ name payload s, cstr (getDeviceServiceName eth_mac service_name) = some name ∧
      wifiProvPrintQr (some name) (some provPop) (some (provTransport ble)) = some payload ∧
      cstr payload = some s ∧
      readObject s = some [⟨ascii "ver", ascii "v1"⟩, ⟨ascii "name", serviceName eth_mac⟩,
        ⟨ascii "pop", provPop⟩, ⟨ascii "transport", provTransport ble⟩] ∧
      ∀ mac, wifiProvPrintQr (some (serviceName mac)) (some provPop) (some (provTransport ble)) =
        some payload ↔ ∀ i, 3 ≤ i → mac i = eth_mac i := by
  have hplain := serviceName_isPlain
  have hpop : ∀ p ∈ some provPop, Plain p := by
    intro p hp
    obtain rfl := Option.mem_some_iff.mp hp
    decide
  have htransport : Plain (provTransport ble) := by cases ble <;> decide
  have hfits : ∀ mac,
      (payloadText (serviceName mac) (some provPop) (provTransport ble)).length < 150 := by
    intro mac
    cases ble <;>
      simp [payloadText, ascii, provTransport, provPop, provQrVersion, length_serviceName]
  have hne : service_name ≠ [] := List.ne_nil_of_length_pos (by omega)
  have hname : cstr (getDeviceServiceName eth_mac service_name) = some (serviceName eth_mac) := by
    unfold getDeviceServiceName
    rw [cstr_snprintf hne (hplain eth_mac).zero_notMem, hsize,
      List.take_of_length_le (length_serviceName eth_mac).le]
  obtain ⟨payload, s, hprint, hcstr, hread⟩ := payload_reads (hplain eth_mac) hpop htransport
  rw [if_pos (hfits eth_mac)] at hread
  refine ⟨_, payload, s, hname, hprint, hcstr, hread, fun mac => ?_⟩
  rw [← serviceName_inj]
  constructor
  · intro hsame
    obtain ⟨payload', s', hprint', hcstr', hread'⟩ := payload_reads (hplain mac) hpop htransport
    rw [hprint'] at hsame
    cases hsame
    rw [hcstr] at hcstr'
    cases hcstr'
    rw [if_pos (hfits mac), hread] at hread'
    simp only [payloadMembers, Option.toList, List.map, List.cons_append, List.nil_append,
      Option.some.injEq, List.cons.injEq, Member.mk.injEq, true_and, and_true] at hread'
    exact hread'.symm
  · intro h
    rw [h]
    exact hprint

/-- The device with the address `24:0a:c4:01:02:ff`. -/
theorem service_payload_device :
    ∃ name payload s,
      cstr (getDeviceServiceName ![0x24, 0x0a, 0xc4, 0x01, 0x02, 0xff] (List.replicate 12 0xa5)) =
        some name ∧
      wifiProvPrintQr (some name) (some provPop) (some (provTransport true)) = some payload ∧
      cstr payload = some s ∧ (readObject s).isSome = true := by
  obtain ⟨name, payload, s, hname, hprint, hcstr, hread, -⟩ := service_payload
    ![0x24, 0x0a, 0xc4, 0x01, 0x02, 0xff] (List.replicate 12 0xa5) true (by decide)
  exact ⟨name, payload, s, hname, hprint, hcstr, by rw [hread]; rfl⟩

end PartLib.Provisioning
