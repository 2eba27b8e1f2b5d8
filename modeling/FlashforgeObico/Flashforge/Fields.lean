import FlashforgeObico.Foundations.Procedure
import FlashforgeObico.Flashforge.Snapshot

/-!
# The fields of a snapshot

Every field of a `PrinterSnapshot` is read from one key of the reply by a reader of its own:
`parseSnapshot` returns a snapshot exactly when every reader returns its field
(`parseSnapshot_eq_ok_iff`), and raises exactly when one of them raises (`Field.Raises`).
-/

namespace FlashforgeObico

open Py

/-- The fields of a `PrinterSnapshot`. -/
inductive Field
  | state
  | fileName
  | progress
  | durationS
  | remainingS
  | layer
  | totalLayers
  | errorCode
  | cameraStreamUrl
  | nozzleTemps
  | nozzleTargets
  | bedTemp
  | bedTarget
  | chamberTemp
  | chamberTarget
  | model
  | firmware
  | lightOn
  | doorOpen
  | slots
  deriving DecidableEq

namespace Field

/-- The key that a field is read from. -/
def key : Field → String
  | state => "status"
  | fileName => "printFileName"
  | progress => "printProgress"
  | durationS => "printDuration"
  | remainingS => "estimatedTime"
  | layer => "printLayer"
  | totalLayers => "targetPrintLayer"
  | errorCode => "errorCode"
  | cameraStreamUrl => "cameraStreamUrl"
  | nozzleTemps => "nozzleTemps"
  | nozzleTargets => "nozzleTargetTemps"
  | bedTemp => "platTemp"
  | bedTarget => "platTargetTemp"
  | chamberTemp => "chamberTemp"
  | chamberTarget => "chamberTargetTemp"
  | model => "model"
  | firmware => "firmwareVersion"
  | lightOn => "lightStatus"
  | doorOpen => "doorStatus"
  | slots => "matlStationInfo"

/-- The type of a field. -/
abbrev Value : Field → Type
  | state => MachineState
  | fileName | errorCode | cameraStreamUrl | model | firmware => String
  | progress => Double
  | durationS | remainingS => ℤ
  | layer | totalLayers => Option ℤ
  | nozzleTemps | nozzleTargets => List Double
  | bedTemp | bedTarget | chamberTemp | chamberTarget => Option Double
  | lightOn | doorOpen => Bool
  | slots => List MaterialSlot

/-- A field of a snapshot. -/
def get (s : PrinterSnapshot) : (f : Field) → f.Value
  | state => s.state
  | fileName => s.fileName
  | progress => s.progress
  | durationS => s.durationS
  | remainingS => s.remainingS
  | layer => s.layer
  | totalLayers => s.totalLayers
  | errorCode => s.errorCode
  | cameraStreamUrl => s.cameraStreamUrl
  | nozzleTemps => s.nozzleTemps
  | nozzleTargets => s.nozzleTargets
  | bedTemp => s.bedTemp
  | bedTarget => s.bedTarget
  | chamberTemp => s.chamberTemp
  | chamberTarget => s.chamberTarget
  | model => s.model
  | firmware => s.firmware
  | lightOn => s.lightOn
  | doorOpen => s.doorOpen
  | slots => s.slots

/-- The reader of a field. -/
def read : (f : Field) → Json → Except Error f.Value
  | state, v => .ok (parseState v)
  | fileName, v | errorCode, v | cameraStreamUrl, v | model, v | firmware, v => .ok (asStr v)
  | progress, v => (asFloat v).map fun x => clampUnit (floatOrZero x)
  | durationS, v => .ok (intOrZero (asInt v))
  | remainingS, v => asFloat v >>= fun x => intOfFloat (floatOrZero x)
  | layer, v | totalLayers, v => .ok (asInt v)
  | nozzleTemps, v | nozzleTargets, v => floats v
  | bedTemp, v | bedTarget, v | chamberTemp, v | chamberTarget, v => asFloat v
  | lightOn, v | doorOpen, v => .ok (isOpen v)
  | slots, v => .ok (FlashforgeObico.slots v)

/-- The snapshot with given fields. -/
def ofValues (v : (f : Field) → f.Value) : PrinterSnapshot where
  state := v state
  fileName := v fileName
  progress := v progress
  durationS := v durationS
  remainingS := v remainingS
  layer := v layer
  totalLayers := v totalLayers
  errorCode := v errorCode
  cameraStreamUrl := v cameraStreamUrl
  nozzleTemps := v nozzleTemps
  nozzleTargets := v nozzleTargets
  bedTemp := v bedTemp
  bedTarget := v bedTarget
  chamberTemp := v chamberTemp
  chamberTarget := v chamberTarget
  model := v model
  firmware := v firmware
  lightOn := v lightOn
  doorOpen := v doorOpen
  slots := v slots

theorem get_ofValues (v : (f : Field) → f.Value) (f : Field) : get (ofValues v) f = v f := by
  cases f <;> rfl

/-- A snapshot has no other fields. -/
theorem eq_of_get_eq {s s' : PrinterSnapshot} (h : ∀ f, get s f = get s' f) : s = s' := by
  have hs : ∀ s, s = ofValues (get s) := fun _ => rfl
  rw [hs s, hs s', funext h]

end Field

/-! ## What the parser returns -/

/-- **The parser reads every field from its key.** -/
theorem parseSnapshot_eq_ok_iff {d : Dict} {s : PrinterSnapshot} :
    parseSnapshot d = .ok s ↔ ∀ f : Field, f.read (d.get f.key) = .ok (f.get s) := by
  constructor
  · intro h
    unfold parseSnapshot at h
    obtain ⟨progress, hp, h⟩ := Except.bind_eq_ok_iff.mp h
    obtain ⟨estimated, he, h⟩ := Except.bind_eq_ok_iff.mp h
    obtain ⟨remaining, hr, h⟩ := Except.bind_eq_ok_iff.mp h
    obtain ⟨temps, ht, h⟩ := Except.bind_eq_ok_iff.mp h
    obtain ⟨targets, htt, h⟩ := Except.bind_eq_ok_iff.mp h
    obtain ⟨bed, hb, h⟩ := Except.bind_eq_ok_iff.mp h
    obtain ⟨bedTarget, hbt, h⟩ := Except.bind_eq_ok_iff.mp h
    obtain ⟨chamber, hc, h⟩ := Except.bind_eq_ok_iff.mp h
    obtain ⟨chamberTarget, hct, h⟩ := Except.bind_eq_ok_iff.mp h
    rw [← Except.ok.inj h]
    intro f
    cases f with
    | progress => exact Except.map_eq_ok_iff.mpr ⟨progress, hp, rfl⟩
    | remainingS => exact Except.bind_eq_ok_iff.mpr ⟨estimated, he, hr⟩
    | nozzleTemps => exact ht
    | nozzleTargets => exact htt
    | bedTemp => exact hb
    | bedTarget => exact hbt
    | chamberTemp => exact hc
    | chamberTarget => exact hct
    | _ => simp only [Field.read, Field.key, Field.get]
  · intro h
    obtain ⟨progress, hp, hprogress⟩ := Except.map_eq_ok_iff.mp (h .progress)
    obtain ⟨estimated, he, hr⟩ := Except.bind_eq_ok_iff.mp (h .remainingS)
    have ht := h .nozzleTemps
    have htt := h .nozzleTargets
    have hb := h .bedTemp
    have hbt := h .bedTarget
    have hc := h .chamberTemp
    have hct := h .chamberTarget
    simp only [Field.read, Field.key, Field.get] at hp he hr hprogress ht htt hb hbt hc hct
    unfold parseSnapshot
    simp only [hp, he, hr, ht, htt, hb, hbt, hc, hct, bind, Except.bind, pure, Except.pure]
    refine congrArg Except.ok (Field.eq_of_get_eq fun f => ?_)
    have hf := h f
    cases f with
    | progress => exact hprogress
    | remainingS | nozzleTemps | nozzleTargets | bedTemp | bedTarget | chamberTemp
    | chamberTarget =>
      simp only [Field.get]
    | _ =>
      simp only [Field.read, Field.key, Field.get, Except.ok.injEq] at hf ⊢
      exact hf

/-- **Replacing the value of a key costs no field that is read from another.** -/
theorem get_eq_of_set {d : Dict} {k : String} {v : Json} {s s' : PrinterSnapshot}
    (h : parseSnapshot d = .ok s) (h' : parseSnapshot (d.set k v) = .ok s') {f : Field}
    (hf : f.key ≠ k) :
    f.get s' = f.get s := by
  have hread := parseSnapshot_eq_ok_iff.mp h f
  have hread' := parseSnapshot_eq_ok_iff.mp h' f
  rw [Dict.get_set_of_ne hf, hread] at hread'
  exact (Except.ok.inj hread').symm

/-! ## When the parser raises -/

/-- An integer beyond the doubles. -/
def TooLarge (v : Json) : Prop := ∃ n, v = .int n ∧ overflowThreshold ≤ |(n : ℚ)|

/-- The values on which the reader of a field raises: an integer beyond the doubles where a float is
read, also in a list of them, and an estimated time that is not finite. -/
def Field.Raises : Field → Json → Prop
  | progress, v | bedTemp, v | bedTarget, v | chamberTemp, v | chamberTarget, v => TooLarge v
  | remainingS, v => TooLarge v ∨ ∃ x, asFloat v = .ok (some x) ∧ x.isFinite = false
  | nozzleTemps, v | nozzleTargets, v => ∃ item ∈ v.items, TooLarge item
  | _, _ => False

theorem asFloat_raises_iff {v : Json} : (∃ e, asFloat v = .error e) ↔ TooLarge v := by
  simp [asFloat_eq_error_iff, TooLarge]

theorem intOfFloat_raises_iff {x : Double} : (∃ e, intOfFloat x = .error e) ↔
    x.isFinite = false := by
  cases x <;> simp [intOfFloat, Double.isFinite]

theorem floats_raises_iff {v : Json} :
    (∃ e, floats v = .error e) ↔ ∃ item ∈ v.items, TooLarge item := by
  cases v with
  | arr items =>
    rw [floats, Except.bind_raises_iff]
    simp only [Except.mapM_raises_iff, asFloat_raises_iff, pure, Except.pure, reduceCtorEq,
      exists_false,
      and_false, or_false, Json.items]
  | _ => simp [floats, Json.items]

theorem readRemaining_raises_iff {v : Json} :
    (∃ e, (asFloat v >>= fun x => intOfFloat (floatOrZero x)) = .error e) ↔
      Field.remainingS.Raises v := by
  rw [Except.bind_raises_iff, asFloat_raises_iff, Field.Raises]
  simp only [intOfFloat_raises_iff]
  constructor
  · rintro (h | ⟨_ | x, hx, h⟩)
    · exact Or.inl h
    · exact absurd h (by decide)
    · exact Or.inr ⟨x, hx, h⟩
  · rintro (h | ⟨x, hx, h⟩)
    · exact Or.inl h
    · exact Or.inr ⟨some x, hx, h⟩

/-- **When the reader of a field raises.** -/
theorem Field.read_raises_iff {f : Field} {v : Json} : (∃ e, f.read v = .error e) ↔ f.Raises v := by
  cases f with
  | progress => exact Except.map_raises_iff.trans asFloat_raises_iff
  | remainingS => exact readRemaining_raises_iff
  | nozzleTemps | nozzleTargets => exact floats_raises_iff
  | bedTemp | bedTarget | chamberTemp | chamberTarget => exact asFloat_raises_iff
  | _ => simp [Field.read, Field.Raises]

/-- **The parser returns exactly when no field raises.** -/
theorem exists_parseSnapshot_eq_ok_iff {d : Dict} :
    (∃ s, parseSnapshot d = .ok s) ↔ ∀ f : Field, ¬ f.Raises (d.get f.key) := by
  simp only [parseSnapshot_eq_ok_iff, ← Field.read_raises_iff]
  constructor
  · rintro ⟨s, h⟩ f ⟨e, he⟩
    rw [h f] at he
    cases he
  · intro h
    have hread : ∀ f : Field, ∃ x, f.read (d.get f.key) = .ok x := by
      intro f
      rcases hf : f.read (d.get f.key) with e | x
      · exact absurd ⟨e, hf⟩ (h f)
      · exact ⟨x, rfl⟩
    choose x hx using hread
    exact ⟨Field.ofValues x, fun f => by rw [Field.get_ofValues]; exact hx f⟩

/-! ## The progress -/

/-- Clamping brings every number but NaN into the unit interval. -/
theorem clampUnit_mem_unit_iff {x : Double} : 0 ≤ clampUnit x ∧ clampUnit x ≤ 1 ↔ x ≠ .nan := by
  constructor
  · rintro ⟨-, h⟩ rfl
    exact Double.not_nan_le 1 h
  · intro hx
    have h0 : (0 : Double) ≠ .nan := by decide
    have h1 : (1 : Double) ≠ .nan := by decide
    unfold clampUnit
    by_cases hlow : x < 0
    · rw [if_pos hlow, if_neg (by decide)]
      exact ⟨by decide, by decide⟩
    · rw [if_neg hlow]
      by_cases hhigh : 1 < x
      · rw [if_pos hhigh]
        exact ⟨by decide, by decide⟩
      · rw [if_neg hhigh]
        exact ⟨Double.le_of_not_lt hx h0 hlow, Double.le_of_not_lt h1 hx hhigh⟩

/-- The progress of a snapshot is a fraction unless the reply has a NaN there. -/
theorem progress_mem_unit_iff {d : Dict} {s : PrinterSnapshot} (h : parseSnapshot d = .ok s) :
    0 ≤ s.progress ∧ s.progress ≤ 1 ↔ asFloat (d.get "printProgress") ≠ .ok (some .nan) := by
  obtain ⟨x, hx, hs⟩ := Except.map_eq_ok_iff.mp (parseSnapshot_eq_ok_iff.mp h .progress)
  change clampUnit (floatOrZero x) = s.progress at hs
  change asFloat (d.get "printProgress") = .ok x at hx
  rw [← hs, clampUnit_mem_unit_iff, hx]
  cases x <;> simp [floatOrZero]

/-! ## The estimate of the time left -/

/-- The time left that is projected from a duration and a progress fits in the doubles. -/
def Projects (durationS : ℤ) (progress : Double) : Prop :=
  ∃ duration, Double.ofInt? durationS = some duration ∧
    (duration * (1 - progress) / progress).isFinite = true

theorem roundFloat_raises_iff {x : Double} : (∃ e, roundFloat x = .error e) ↔
    x.isFinite = false := by
  cases x <;> simp [roundFloat, Double.isFinite]

theorem zero_lt_minProgressForEstimate : (0 : Double) < minProgressForEstimate := by decide +kernel

/-- **When the estimate is shown, or left out, without raising.** -/
theorem estimate_raises_iff {s : PrinterSnapshot} :
    (∃ e, s.remainingEstimateS = .error e) ↔
      ¬ (s.NoEstimate ∨ Projects s.durationS s.progress) := by
  unfold PrinterSnapshot.remainingEstimateS
  by_cases hno : s.NoEstimate
  · simp [hno]
  · have hzero : s.progress ≠ 0 := by
      intro h
      exact hno (Or.inr (Or.inr (h ▸ zero_lt_minProgressForEstimate)))
    rw [if_neg hno]
    unfold Projects floatOfInt divFloat
    rcases Double.ofInt? s.durationS with _ | duration
    · simp [hno, bind, Except.bind]
    · simp only [Except.bind_raises_iff, roundFloat_raises_iff, if_neg hzero, hno, false_or]
      simp [pure, Except.pure]

/-- If a reply shows an active job that has started, at a progress from which a time left is
projected, then that time fits in the doubles. -/
def EstimateFits (d : Dict) : Prop :=
  ∀ x, asFloat (d.get "printProgress") = .ok x →
    asStr (d.get "printFileName") ≠ "" → parseState (d.get "status") ∈ activeStates →
    0 < intOrZero (asInt (d.get "printDuration")) →
    ¬ clampUnit (floatOrZero x) < minProgressForEstimate →
    Projects (intOrZero (asInt (d.get "printDuration"))) (clampUnit (floatOrZero x))

theorem estimateFits_iff {d : Dict} {s : PrinterSnapshot} (h : parseSnapshot d = .ok s) :
    EstimateFits d ↔ s.NoEstimate ∨ Projects s.durationS s.progress := by
  have hread := parseSnapshot_eq_ok_iff.mp h
  have hstate : parseState (d.get "status") = s.state := Except.ok.inj (hread .state)
  have hfile : asStr (d.get "printFileName") = s.fileName := Except.ok.inj (hread .fileName)
  have hduration : intOrZero (asInt (d.get "printDuration")) = s.durationS :=
    Except.ok.inj (hread .durationS)
  obtain ⟨x, hx, hprogress⟩ := Except.map_eq_ok_iff.mp (hread .progress)
  change asFloat (d.get "printProgress") = .ok x at hx
  change clampUnit (floatOrZero x) = s.progress at hprogress
  unfold EstimateFits PrinterSnapshot.NoEstimate PrinterSnapshot.HasJob
  rw [hstate, hfile, hduration, hx]
  constructor
  · intro hfits
    by_contra hno
    simp only [not_or, not_not, not_le] at hno
    apply hno.2
    rw [← hprogress]
    exact hfits x rfl hno.1.1.1 hno.1.1.2 hno.1.2.1 (by rw [hprogress]; exact hno.1.2.2)
  · rintro hor y hy hname hactive hpos hlow
    cases hy
    rw [hprogress] at hlow ⊢
    rcases hor with (hjob | hdur | hless) | hproj
    · exact absurd ⟨hname, hactive⟩ hjob
    · exact absurd hpos (not_lt.mpr hdur)
    · exact absurd hless hlow
    · exact hproj

end FlashforgeObico
