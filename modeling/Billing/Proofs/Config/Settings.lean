import Billing.Config.Settings
import Billing.Proofs.Text.Digits
import Billing.Proofs.Text.Trim

/-!
# What settings are read from

Each setting is read from its own variable: from the text between the blanks at its ends, if there
is one. The variables are read in a fixed order, and the first one that offends is the fault.
-/

namespace Billing.Config

variable {env env' : Environment} {v : Variable} {s raw : String}

/-! ## What a text says -/

/-- What a variable sets. -/
def Variable.Setting : Variable → Type
  | .bindAddress => Network.SocketAddress
  | .logFormat => LogFormat
  | .fetchMode => Fetch.Mode
  | .fetchDeadline => Nat
  | .maxCallTimeout => Nat

/-- The setting of a variable. -/
def Settings.get (s : Settings) : (v : Variable) → v.Setting
  | .bindAddress => s.bindAddress
  | .logFormat => s.logFormat
  | .fetchMode => s.fetchMode
  | .fetchDeadline => s.fetchDeadline
  | .maxCallTimeout => s.maxCallTimeout

/-- The names of a log format. -/
def LogFormat.names : LogFormat → List String
  | .json => ["json"]
  | .pretty => ["pretty", "text"]

/-- Digits that make a number of 64 bits, with one plus sign in front or none. -/
def SaysWord (s : String) (n : Nat) : Prop :=
  ∃ ds, (s.toList = ds ∨ s.toList = '+' :: ds) ∧ Text.Numeral ds n ∧ n < 2 ^ 64

/-- What a text says as the text of a variable. -/
def Variable.Says : (v : Variable) → String → v.Setting → Prop
  | .bindAddress, s, a => Network.SocketAddress.parse? s = some a
  | .logFormat, s, f => ∃ name ∈ f.names, Text.sameIgnoringCase s name = true
  | .fetchMode, s, m => Text.sameIgnoringCase s m.name = true
  | .fetchDeadline, s, n => SaysWord s n
  | .maxCallTimeout, s, n => SaysWord s n

/-- The reader of a variable. -/
def Variable.read : (v : Variable) → String → Except String v.Setting
  | .bindAddress => readAddress
  | .logFormat => readLogFormat
  | .fetchMode => Fetch.Mode.parse
  | .fetchDeadline => readWord
  | .maxCallTimeout => readWord

theorem mapError_eq_ok_iff {ε ε' α : Type} {e : Except ε α} {f : ε → ε'} {a : α} :
    e.mapError f = .ok a ↔ e = .ok a := by
  cases e <;> simp [Except.mapError]

theorem readAddress_eq_ok_iff {a : Network.SocketAddress} :
    readAddress s = .ok a ↔ Network.SocketAddress.parse? s = some a := by
  unfold readAddress
  split <;> simp_all

theorem lowercase_name (m : Fetch.Mode) : Text.lowercase m.name = m.name := by
  cases m <;> decide

theorem lowercase_of_mem_names {f : LogFormat} (h : s ∈ f.names) : Text.lowercase s = s := by
  have hall : ∀ f : LogFormat, ∀ name ∈ f.names, Text.lowercase name = name := by
    rintro (_ | _) <;> decide
  exact hall f s h

theorem exists_name_iff {f : LogFormat} :
    (∃ name ∈ f.names, Text.sameIgnoringCase s name = true) ↔ Text.lowercase s ∈ f.names := by
  simp only [Text.sameIgnoringCase_iff]
  constructor
  · rintro ⟨name, hname, hs⟩
    rwa [hs, lowercase_of_mem_names hname]
  · exact fun h => ⟨_, h, (lowercase_of_mem_names h).symm⟩

theorem readLogFormat_eq_ok_iff (h : Text.trim s = s) {f : LogFormat} :
    readLogFormat s = .ok f ↔ ∃ name ∈ f.names, Text.sameIgnoringCase s name = true := by
  rw [exists_name_iff, readLogFormat, mapError_eq_ok_iff, LogFormat.parse, h]
  split <;> cases f <;> simp_all [LogFormat.names]

theorem parseMode_eq_ok_iff (h : Text.trim s = s) {m : Fetch.Mode} :
    Fetch.Mode.parse s = .ok m ↔ Text.sameIgnoringCase s m.name = true := by
  rw [Text.sameIgnoringCase_iff, lowercase_name, Fetch.Mode.parse, h]
  split <;> cases m <;> simp_all [Fetch.Mode.name]

theorem readWord_eq_ok_iff {n : Nat} : readWord s = .ok n ↔ SaysWord s n := by
  have hmax : n ≤ Text.maxWord ↔ n < 2 ^ 64 := by
    rw [Text.maxWord]
    omega
  rw [readWord, mapError_eq_ok_iff, Text.readWhole_eq_ok_iff, SaysWord, hmax]

/-- A text without blanks at its ends is read as what it says. -/
theorem Variable.read_eq_ok_iff (h : Text.trim s = s) {a : v.Setting} :
    v.read s = .ok a ↔ v.Says s a := by
  cases v with
  | bindAddress => exact readAddress_eq_ok_iff
  | logFormat => exact readLogFormat_eq_ok_iff h
  | fetchMode => exact parseMode_eq_ok_iff h
  | fetchDeadline => exact readWord_eq_ok_iff
  | maxCallTimeout => exact readWord_eq_ok_iff

/-! ## What a variable comes to -/

/-- The value of a variable: what its text says between the blanks at its ends, or its default if
the variable is unset or blank. -/
inductive Environment.Gives (env : Environment) (v : Variable) : v.Setting → Prop where
  | unset (h : env v.name = none) : env.Gives v (Settings.default.get v)
  | blank {raw : String} (h : env v.name = some raw) (hblank : Text.Holds raw "") :
      env.Gives v (Settings.default.get v)
  | said {raw text : String} {a : v.Setting} (h : env v.name = some raw)
      (hholds : Text.Holds raw text) (hne : text ≠ "") (hsaid : v.Says text a) : env.Gives v a

/-- A variable that is set to a text which says nothing. -/
def Environment.Offends (env : Environment) (v : Variable) : Prop := ∀ a, ¬ env.Gives v a

/-- What reading a variable gives. -/
def Environment.value (env : Environment) (v : Variable) : Except Fault v.Setting :=
  settingOr env v v.read (Settings.default.get v)

theorem value_of_unset (h : env v.name = none) : env.value v = .ok (Settings.default.get v) := by
  simp [Environment.value, settingOr, setting, h, Except.map]

theorem value_of_blank (h : env v.name = some raw) (hblank : Text.trim raw = "") :
    env.value v = .ok (Settings.default.get v) := by
  simp [Environment.value, settingOr, setting, h, Text.allBlank_iff.mpr hblank, Except.map]

theorem value_of_text (h : env v.name = some raw) (hne : Text.trim raw ≠ "") :
    env.value v = (v.read (Text.trim raw)).mapError (⟨v, ·⟩) := by
  have hblank : ¬ Text.allBlank raw = true := fun hb => hne (Text.allBlank_iff.mp hb)
  simp only [Environment.value, settingOr, setting, h, hblank]
  cases v.read (Text.trim raw) <;> rfl

theorem value_eq_ok_iff {a : v.Setting} : env.value v = .ok a ↔ env.Gives v a := by
  constructor
  · intro h
    cases henv : env v.name with
    | none =>
        rw [value_of_unset henv] at h
        cases h
        exact .unset henv
    | some raw =>
        by_cases hblank : Text.trim raw = ""
        · rw [value_of_blank henv hblank] at h
          cases h
          exact .blank henv (Text.holds_iff.mpr hblank)
        · rw [value_of_text henv hblank, mapError_eq_ok_iff,
            Variable.read_eq_ok_iff (Text.trim_trim raw)] at h
          exact .said henv (Text.holds_trim raw) hblank h
  · intro h
    cases h with
    | unset henv => exact value_of_unset henv
    | blank henv hblank => exact value_of_blank henv (Text.holds_iff.mp hblank)
    | said henv hholds hne hsaid =>
        obtain rfl := Text.holds_iff.mp hholds
        rw [value_of_text henv hne, mapError_eq_ok_iff,
          Variable.read_eq_ok_iff (Text.trim_trim _)]
        exact hsaid

/-- The fault of a variable names the variable. -/
theorem var_of_value {f : Fault} (h : env.value v = .error f) : f.var = v := by
  cases henv : env v.name with
  | none =>
      rw [value_of_unset henv] at h
      cases h
  | some raw =>
      by_cases hblank : Text.trim raw = ""
      · rw [value_of_blank henv hblank] at h
        cases h
      · rw [value_of_text henv hblank] at h
        cases hread : v.read (Text.trim raw) with
        | ok a => simp [hread, Except.mapError] at h
        | error reason =>
            rw [hread] at h
            cases h
            rfl

theorem not_offends_iff : ¬ env.Offends v ↔ ∃ a, env.value v = .ok a := by
  simp only [Environment.Offends, value_eq_ok_iff, not_forall, not_not]

theorem offends_iff : env.Offends v ↔ ∃ reason, env.value v = .error ⟨v, reason⟩ := by
  rw [← not_iff_not, not_offends_iff]
  cases h : env.value v with
  | ok a => simp
  | error f =>
      obtain rfl := var_of_value h
      simpa using ⟨f.reason, rfl⟩

/-- Two texts of a variable, or none, that come to the same. -/
inductive Alike : Option String → Option String → Prop where
  | same {t : Option String} : Alike t t
  /-- More blanks around a text. -/
  | padded {s front back : String} (hf : Text.Blanks front.toList) (hb : Text.Blanks back.toList) :
      Alike (some s) (some (front ++ s ++ back))
  /-- None where there are blanks only. -/
  | unset {s : String} (h : Text.Holds s "") : Alike (some s) none

theorem value_congr (h : env' v.name = env v.name) : env'.value v = env.value v := by
  simp only [Environment.value, settingOr, setting, h]

theorem Alike.value_eq (h : Alike (env v.name) (env' v.name)) : env'.value v = env.value v := by
  generalize hs : env v.name = s, hs' : env' v.name = s' at h
  cases h with
  | same => exact value_congr (hs'.trans hs.symm)
  | @padded s front back hf hb =>
      have htrim := Text.trim_append hf hb s
      by_cases hblank : Text.trim s = ""
      · rw [value_of_blank hs hblank, value_of_blank hs' (htrim.trans hblank)]
      · rw [value_of_text hs hblank, value_of_text hs' (htrim ▸ hblank), htrim]
  | unset hblank => rw [value_of_unset hs', value_of_blank hs (Text.holds_iff.mp hblank)]

/-! ## All variables together -/

/-- The place of a variable in the order of reading. -/
def Variable.place : Variable → Nat
  | .bindAddress => 0
  | .logFormat => 1
  | .fetchMode => 2
  | .fetchDeadline => 3
  | .maxCallTimeout => 4

/-- What comes of the variables together: their values, or the fault of the first that has one. -/
inductive Outcome (env : Environment) : Except Fault Settings → Prop where
  | loaded {s : Settings} (h : ∀ v, env.value v = .ok (s.get v)) : Outcome env (.ok s)
  | failed {v : Variable} {f : Fault} (h : env.value v = .error f)
      (hbefore : ∀ w, w.place < v.place → ∃ a, env.value w = .ok a) : Outcome env (.error f)

theorem outcome (env : Environment) : Outcome env (Settings.load env) := by
  have hload : Settings.load env = (do
      let bindAddress ← env.value .bindAddress
      let logFormat ← env.value .logFormat
      let fetchMode ← env.value .fetchMode
      let fetchDeadline ← env.value .fetchDeadline
      let maxCallTimeout ← env.value .maxCallTimeout
      .ok ⟨bindAddress, logFormat, fetchMode, fetchDeadline, maxCallTimeout⟩) := rfl
  rw [hload]
  -- One variable after another: the first fault ends it, and the values so far stay in the context.
  cases hbind : env.value .bindAddress with
  | error f => exact .failed hbind fun w hw => absurd hw (Nat.not_lt_zero _)
  | ok bindAddress =>
  cases hlog : env.value .logFormat with
  | error f => exact .failed hlog fun | .bindAddress, _ => ⟨_, hbind⟩
  | ok logFormat =>
  cases hmode : env.value .fetchMode with
  | error f => exact .failed hmode fun | .bindAddress, _ => ⟨_, hbind⟩ | .logFormat, _ => ⟨_, hlog⟩
  | ok fetchMode =>
  cases hdeadline : env.value .fetchDeadline with
  | error f =>
      exact .failed hdeadline fun
        | .bindAddress, _ => ⟨_, hbind⟩
        | .logFormat, _ => ⟨_, hlog⟩
        | .fetchMode, _ => ⟨_, hmode⟩
  | ok fetchDeadline =>
  cases hmax : env.value .maxCallTimeout with
  | error f =>
      exact .failed hmax fun
        | .bindAddress, _ => ⟨_, hbind⟩
        | .logFormat, _ => ⟨_, hlog⟩
        | .fetchMode, _ => ⟨_, hmode⟩
        | .fetchDeadline, _ => ⟨_, hdeadline⟩
  | ok maxCallTimeout =>
      exact .loaded fun
        | .bindAddress => hbind
        | .logFormat => hlog
        | .fetchMode => hmode
        | .fetchDeadline => hdeadline
        | .maxCallTimeout => hmax

theorem Settings.eq_of_get {s s' : Settings} (h : ∀ v, s.get v = s'.get v) : s = s' := by
  cases s
  cases s'
  rw [Settings.mk.injEq]
  exact ⟨h .bindAddress, h .logFormat, h .fetchMode, h .fetchDeadline, h .maxCallTimeout⟩

theorem Variable.place_injective {v w : Variable} (h : v.place = w.place) : v = w := by
  cases v <;> cases w <;> first | rfl | exact absurd h (by decide)

theorem load_eq_ok_iff {s : Settings} :
    Settings.load env = .ok s ↔ ∀ v, env.value v = .ok (s.get v) := by
  have hout := outcome env
  generalize Settings.load env = r at hout ⊢
  cases hout with
  | @loaded s' h' =>
      constructor
      · rintro ⟨⟩
        exact h'
      · intro h
        refine congrArg Except.ok (Settings.eq_of_get fun v => ?_)
        exact Except.ok.inj ((h' v).symm.trans (h v))
  | @failed v f h' _ =>
      refine ⟨nofun, fun h => ?_⟩
      rw [h v] at h'
      cases h'

theorem load_eq_error_iff {f : Fault} :
    Settings.load env = .error f ↔ env.value f.var = .error f ∧
      ∀ w : Variable, w.place < f.var.place → ∃ a, env.value w = .ok a := by
  have hout := outcome env
  generalize Settings.load env = r at hout ⊢
  cases hout with
  | @loaded s h' =>
      refine ⟨nofun, fun ⟨h, _⟩ => ?_⟩
      rw [h' f.var] at h
      cases h
  | @failed v f' h' hbefore' =>
      constructor
      · rintro ⟨⟩
        rw [var_of_value h']
        exact ⟨h', hbefore'⟩
      · rintro ⟨h, hbefore⟩
        rcases Nat.lt_trichotomy v.place f.var.place with hlt | heq | hlt
        · obtain ⟨a, ha⟩ := hbefore v hlt
          rw [ha] at h'
          cases h'
        · rw [← Variable.place_injective heq, h'] at h
          rw [Except.error.inj h]
        · obtain ⟨a, ha⟩ := hbefore' f.var hlt
          rw [ha] at h
          cases h

/-- How an environment is loaded. -/
structure LoadsExactly (env : Environment) : Prop where
  /-- Loading succeeds if and only if every variable is unset, blank or says something. -/
  succeeds : (∃ s, Settings.load env = .ok s) ↔ ∀ v, ∃ a, env.Gives v a
  /-- Each setting is the value of its own variable. -/
  gives : ∀ s, Settings.load env = .ok s ↔ ∀ v, env.Gives v (s.get v)
  /-- It depends on no other variable. -/
  own : ∀ (env' : Environment) s s' v, Settings.load env = .ok s → Settings.load env' = .ok s' →
    env v.name = env' v.name → s.get v = s'.get v
  /-- A fault names the first variable that offends. -/
  first : ∀ v, (∃ reason, Settings.load env = .error ⟨v, reason⟩) ↔
    env.Offends v ∧ ∀ w : Variable, w.place < v.place → ¬ env.Offends w
  /-- What the variables after it hold changes nothing. -/
  regardless : ∀ (env' : Environment) f, Settings.load env = .error f →
    (∀ w : Variable, w.place ≤ f.var.place → env w.name = env' w.name) →
      Settings.load env' = .error f
  /-- Neither do more blanks, a blank text instead of none, and other variables. -/
  alike : ∀ env' : Environment, (∀ v : Variable, Alike (env v.name) (env' v.name)) →
    Settings.load env' = Settings.load env

/-- The settings are the values of their variables, or there is a fault, which names the first
variable in the order whose text says nothing. -/
theorem loads_exactly (env : Environment) : LoadsExactly env where
  succeeds := by
    simp only [load_eq_ok_iff, value_eq_ok_iff]
    constructor
    · rintro ⟨s, h⟩ v
      exact ⟨_, h v⟩
    · intro h
      refine ⟨⟨(h .bindAddress).choose, (h .logFormat).choose, (h .fetchMode).choose,
        (h .fetchDeadline).choose, (h .maxCallTimeout).choose⟩, fun v => ?_⟩
      cases v <;> exact (h _).choose_spec
  gives s := by simp only [load_eq_ok_iff, value_eq_ok_iff]
  own env' s s' v hs hs' hv := by
    have h := load_eq_ok_iff.mp hs v
    rw [value_congr hv, load_eq_ok_iff.mp hs' v] at h
    exact (Except.ok.inj h).symm
  first v := by
    simp only [load_eq_error_iff, not_offends_iff, exists_and_right]
    rw [offends_iff]
  regardless env' f hload hsame := by
    obtain ⟨hf, hbefore⟩ := load_eq_error_iff.mp hload
    rw [load_eq_error_iff]
    refine ⟨(value_congr (hsame _ (Nat.le_refl _))).symm.trans hf, fun w hw => ?_⟩
    obtain ⟨a, ha⟩ := hbefore w hw
    exact ⟨a, (value_congr (hsame w (Nat.le_of_lt hw))).symm.trans ha⟩
  alike env' halike := by
    have hval : ∀ v, env'.value v = env.value v := fun v => (halike v).value_eq
    cases hload : Settings.load env with
    | ok s =>
        rw [load_eq_ok_iff] at hload ⊢
        exact fun v => (hval v).trans (hload v)
    | error f =>
        rw [load_eq_error_iff] at hload ⊢
        simpa only [hval] using hload

/-- Two variables offend, and the one that is read first is the fault. -/
example :
    (Settings.load fun
      | "BILLFLOW_FETCH_MODE" => some " one by one "
      | "BILLFLOW_MAX_CALL_TIMEOUT_SECS" => some "soon"
      | _ => none) = .error ⟨.fetchMode, "unknown fetch mode: one by one"⟩ := rfl

end Billing.Config
