import Billing.Config.LogFormat
import Billing.Fetch.Mode
import Billing.Network.AddressReader
import Billing.Text.Decimal

/-!
# Settings

The settings of the service, taken from an environment of named texts. A variable that is unset or
blank leaves the setting at its default; the first variable with an unreadable text is reported.
-/

namespace Billing.Config

/-- The variables of the environment, in the order in which they are read. -/
inductive Variable where
  | bindAddress
  | logFormat
  | fetchMode
  | fetchDeadline
  | maxCallTimeout
  deriving DecidableEq

/-- The name of a variable. -/
def Variable.name : Variable → String
  | .bindAddress => "BILLFLOW_BIND_ADDR"
  | .logFormat => "BILLFLOW_LOG_FORMAT"
  | .fetchMode => "BILLFLOW_FETCH_MODE"
  | .fetchDeadline => "BILLFLOW_FETCH_DEADLINE_MS"
  | .maxCallTimeout => "BILLFLOW_MAX_CALL_TIMEOUT_SECS"

/-- A variable whose text cannot be read. -/
structure Fault where
  var : Variable
  reason : String
  deriving DecidableEq

/-- The wording of a fault. -/
def Fault.message (f : Fault) : String := f.var.name ++ ": " ++ f.reason

/-- The settings of the service. -/
structure Settings where
  bindAddress : Network.SocketAddress
  logFormat : LogFormat
  fetchMode : Fetch.Mode
  /-- How long a read from several sources may take, in milliseconds. -/
  fetchDeadline : Nat
  /-- The longest that a call may wait for its completion, in seconds. -/
  maxCallTimeout : Nat
  deriving DecidableEq

namespace Settings

/-- The settings where nothing is set. -/
def default : Settings where
  bindAddress := .octets ⟨0, 0, 0, 0⟩ 8080
  logFormat := .json
  fetchMode := .parallel
  fetchDeadline := 2000
  maxCallTimeout := 60

instance : Inhabited Settings := ⟨default⟩

end Settings

/-- Texts by name. -/
abbrev Environment := String → Option String

/-! ## Readers of single variables -/

/-- Reads the address to listen at. -/
def readAddress (s : String) : Except String Network.SocketAddress :=
  match Network.SocketAddress.parse? s with
  | some a => .ok a
  | none => .error "invalid socket address syntax"

/-- Reads the log format. -/
def readLogFormat (s : String) : Except String LogFormat := (LogFormat.parse s).mapError (·.message)

/-- Reads a whole number of 64 bits. -/
def readWord (s : String) : Except String Nat :=
  (Text.readWhole Text.maxWord s.toList).mapError (·.message)

/-- What a variable sets: nothing if it is unset or blank, else what its trimmed text is read as. -/
def setting {α : Type} (env : Environment) (v : Variable) (read : String → Except String α) :
    Except Fault (Option α) :=
  match env v.name with
  | none => .ok none
  | some raw =>
    if Text.allBlank raw then .ok none
    else
      match read (Text.trim raw) with
      | .ok a => .ok (some a)
      | .error reason => .error ⟨v, reason⟩

/-- What a variable sets, or the default of its setting. -/
def settingOr {α : Type} (env : Environment) (v : Variable) (read : String → Except String α)
    (fallback : α) : Except Fault α :=
  (setting env v read).map (·.getD fallback)

/-- The settings of an environment, read in the order of the variables. -/
def Settings.load (env : Environment) : Except Fault Settings := do
  let bindAddress ← settingOr env .bindAddress readAddress Settings.default.bindAddress
  let logFormat ← settingOr env .logFormat readLogFormat Settings.default.logFormat
  let fetchMode ← settingOr env .fetchMode Fetch.Mode.parse Settings.default.fetchMode
  let fetchDeadline ← settingOr env .fetchDeadline readWord Settings.default.fetchDeadline
  let maxCallTimeout ← settingOr env .maxCallTimeout readWord Settings.default.maxCallTimeout
  .ok ⟨bindAddress, logFormat, fetchMode, fetchDeadline, maxCallTimeout⟩

end Billing.Config
