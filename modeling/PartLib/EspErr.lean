import Mathlib.Data.Int.Notation

/-!
# The error codes of ESP-IDF

The values of `esp_err_t` that the components return or look for.
-/

namespace PartLib

/-- `esp_err_t`. -/
abbrev EspErr := ℤ

/-- `ESP_OK`. -/
def espOk : EspErr := 0

/-- `ESP_FAIL`. -/
def espFail : EspErr := -1

/-- `ESP_ERR_NO_MEM`. -/
def espErrNoMem : EspErr := 0x101

/-- `ESP_ERR_INVALID_ARG`. -/
def espErrInvalidArg : EspErr := 0x102

/-- `ESP_ERR_INVALID_STATE`. -/
def espErrInvalidState : EspErr := 0x103

/-- `ESP_ERR_NOT_FOUND`. -/
def espErrNotFound : EspErr := 0x105

/-- `ESP_ERR_TIMEOUT`. -/
def espErrTimeout : EspErr := 0x107

/-- `ESP_ERR_NVS_NO_FREE_PAGES`. -/
def espErrNvsNoFreePages : EspErr := 0x110d

/-- `ESP_ERR_NVS_NEW_VERSION_FOUND`. -/
def espErrNvsNewVersionFound : EspErr := 0x1110

/-- An `esp_err_t` that is an error: any value but `ESP_OK`. -/
structure EspError where
  code : EspErr
  ne_ok : code ≠ espOk
  deriving DecidableEq

/-- `ESP_FAIL`, as an error. -/
def EspError.fail : EspError := ⟨espFail, by decide⟩

/-- `ESP_ERR_INVALID_ARG`, as an error. -/
def EspError.invalidArg : EspError := ⟨espErrInvalidArg, by decide⟩

/-- `ESP_ERR_INVALID_STATE`, as an error. -/
def EspError.invalidState : EspError := ⟨espErrInvalidState, by decide⟩

/-- `ESP_ERR_TIMEOUT`, as an error. -/
def EspError.timeout : EspError := ⟨espErrTimeout, by decide⟩

end PartLib
