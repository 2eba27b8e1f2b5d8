import FlashforgeObico.Console.Status
import FlashforgeObico.Flashforge.Fields
import Mathlib.Data.List.ReduceOption

/-!
# Temperatures and their tools

`_floats` leaves the elements out that it cannot read, in the temperatures and in the targets of the
nozzles, and both statuses number what is left. A temperature stays with its tool when nothing was
left out before it: `temperatures_stay_iff`.
-/

namespace FlashforgeObico

open Py

/-! ## Leaving out what cannot be read -/

section Positions

variable {α : Type*}

/-- Before the position `n`, nothing is missing that something follows. -/
def MissingLast (n : ℕ) (l : List (Option α)) : Prop :=
  ∀ i < n, ∀ j, i < j → l[j]?.join.isSome → l[i]?.join.isSome

theorem reduceOption_eq_nil_iff_join {l : List (Option α)} :
    l.reduceOption = [] ↔ ∀ j : ℕ, l[j]?.join = none := by
  induction l with
  | nil => simp
  | cons o l ih =>
    rcases o with _ | a
    · rw [List.reduceOption_cons_of_none, ih]
      refine ⟨fun h j => ?_, fun h j => by simpa using h (j + 1)⟩
      rcases j with _ | j
      · rfl
      · simpa using h j
    · rw [List.reduceOption_cons_of_some]
      exact iff_of_false (List.cons_ne_nil _ _) fun h => by simpa using h 0

/-- What is left keeps its position, up to `n`, exactly when what is missing comes last. -/
theorem getElem?_reduceOption_iff {n : ℕ} {l : List (Option α)} :
    (∀ i < n, l[i]?.join = l.reduceOption[i]?) ↔ MissingLast n l := by
  induction l generalizing n with
  | nil => simp [MissingLast]
  | cons o l ih =>
    rcases n with _ | n
    · simp [MissingLast]
    rcases o with _ | a
    · -- The first element is missing, so nothing may follow.
      have hnil : MissingLast (n + 1) (none :: l) ↔ ∀ j : ℕ, l[j]?.join = none := by
        constructor
        · intro h j
          have hzero := h 0 n.succ_pos (j + 1) j.succ_pos
          simpa using hzero
        · intro h i _ j hij hj
          rcases j with _ | j
          · omega
          · simp [h j] at hj
      rw [hnil, List.reduceOption_cons_of_none, ← reduceOption_eq_nil_iff_join]
      constructor
      · intro h
        have hzero := h 0 n.succ_pos
        simpa using hzero.symm
      · intro h i _
        rw [h, List.getElem?_nil]
        rcases i with _ | i
        · rfl
        · simpa using reduceOption_eq_nil_iff_join.mp h i
    · -- The first element keeps its position.
      have hcons : MissingLast (n + 1) (some a :: l) ↔ MissingLast n l := by
        constructor
        · intro h i hi j hij hj
          simpa using h (i + 1) (by omega) (j + 1) (by omega) (by simpa using hj)
        · intro h i hi j hij hj
          rcases i with _ | i
          · rfl
          · obtain ⟨j, rfl⟩ : ∃ k, j = k + 1 := ⟨j - 1, by omega⟩
            simpa using h i (by omega) j (by omega) (by simpa using hj)
      rw [hcons, ← ih, List.reduceOption_cons_of_some]
      constructor
      · intro h i hi
        simpa using h (i + 1) (by omega)
      · intro h i hi
        rcases i with _ | i
        · rfl
        · simpa using h i (by omega)

end Positions

/-! ## The readings of a reply -/

/-- What is read of an element of a list of temperatures. -/
def elementReading (v : Json) : Option Double := ((asFloat v).toOption).join

/-- What is read of the element `i` of a list of temperatures, if there is one. -/
def readingAt (items : List Json) (i : ℕ) : Option Double := (items.map elementReading)[i]?.join

theorem map_reading_of_mapM {items : List Json} {readings : List (Option Double)}
    (h : items.mapM asFloat = .ok readings) : items.map elementReading = readings := by
  induction items generalizing readings with
  | nil => exact Except.ok.inj h
  | cons v items ih =>
    rw [List.mapM_cons] at h
    obtain ⟨x, hx, h⟩ := Except.bind_eq_ok_iff.mp h
    obtain ⟨rest, hrest, h⟩ := Except.bind_eq_ok_iff.mp h
    obtain rfl : x :: rest = readings := Except.ok.inj h
    rw [List.map_cons, ih hrest, elementReading, hx]
    rfl

/-- A list of temperatures is what can be read of its elements. -/
theorem floats_eq_ok {items : List Json} {xs : List Double} (h : floats (.arr items) = .ok xs) :
    xs = (items.map elementReading).reduceOption := by
  obtain ⟨readings, hreadings, h⟩ := Except.bind_eq_ok_iff.mp h
  rw [map_reading_of_mapM hreadings]
  exact (Except.ok.inj h).symm

/-- Each entry `tool<i>` of the Obico status, and each nozzle of the console status with `tool = i`,
shows what is read of the elements `i` of the two lists. -/
structure StayWithTool (temps targets : List Json) (s : PrinterSnapshot) : Prop where
  obico : ∀ tracker stateText now status,
    buildStatus (some s) tracker stateText now = .ok (some status) →
      ∀ i t, ("tool" ++ toString i, t) ∈ status.temperatures →
        ∃ x, readingAt temps i = some x ∧ t = temperature (some x) (readingAt targets i)
  console : ∀ stateText connected pending viewing cameras version now status,
    buildConsoleStatus (some s) stateText connected pending viewing cameras version now =
        .ok status →
      ∀ printer ∈ status.printer, ∀ nozzle ∈ printer.nozzles,
        readingAt temps nozzle.tool = some nozzle.current ∧
          nozzle.target = readingAt targets nozzle.tool

section Snapshot

variable {s : PrinterSnapshot}

/-- The entry of a tool is that of its position. -/
theorem tool_mem_temperatures_iff {i : ℕ} {t : Temperature} :
    ("tool" ++ toString i, t) ∈ temperatures s ↔
      ∃ x, s.nozzleTemps[i]? = some x ∧ t = temperature (some x) s.nozzleTargets[i]? := by
  have hword : ∀ name : String, name.toList.head? ≠ some 't' → "tool" ++ toString i ≠ name := by
    rintro name hname rfl
    exact hname (by simp)
  simp only [temperatures, List.mem_append, List.mem_map, List.mem_cons, List.not_mem_nil, or_false,
    Prod.mk.injEq, hword "bed" (by decide), hword "chamber" (by decide), false_and]
  constructor
  · rintro ⟨⟨x, j⟩, hmem, hname, rfl⟩
    have hchars := congrArg String.toList hname
    rw [String.toList_append, String.toList_append] at hchars
    obtain rfl : j = i :=
      toString_nat_injective (String.toList_inj.mp (List.append_cancel_left hchars))
    exact ⟨x, List.mem_zipIdx_iff_getElem?.mp hmem, rfl⟩
  · rintro ⟨x, hx, rfl⟩
    exact ⟨(x, i), List.mem_zipIdx_iff_getElem?.mpr hx, rfl, rfl⟩

theorem mem_consoleNozzles_iff {nozzle : ConsoleNozzle} :
    nozzle ∈ consoleNozzles s ↔ s.nozzleTemps[nozzle.tool]? = some nozzle.current ∧
      nozzle.target = s.nozzleTargets[nozzle.tool]? := by
  obtain ⟨tool, current, target⟩ := nozzle
  simp only [consoleNozzles, List.mem_map, ConsoleNozzle.mk.injEq]
  constructor
  · rintro ⟨⟨x, j⟩, hmem, rfl, rfl, rfl⟩
    exact ⟨List.mem_zipIdx_iff_getElem?.mp hmem, rfl⟩
  · rintro ⟨hcurrent, rfl⟩
    exact ⟨(current, tool), List.mem_zipIdx_iff_getElem?.mpr hcurrent, rfl, rfl, rfl⟩

/-- The Obico status of a snapshot without a tracked job. -/
theorem exists_buildStatus (s : PrinterSnapshot) : ∃ status,
    buildStatus (some s) {} .operational 0 = .ok (some status) ∧
      status.temperatures = temperatures s := ⟨_, rfl, rfl⟩

theorem temperatures_of_buildStatus {tracker : JobTracker} {stateText : StateText} {now : Time}
    {status : Status} (h : buildStatus (some s) tracker stateText now = .ok (some status)) :
    status.temperatures = temperatures s := by
  simp only [buildStatus] at h
  split_ifs at h
  · cases h
  · obtain ⟨left, -, h⟩ := Except.bind_eq_ok_iff.mp h
    rw [← Option.some.inj (Except.ok.inj h)]
    rfl

end Snapshot

/-- **Temperatures stay with their tool** exactly when, up to the number of temperatures that can be
read, no element that cannot be read comes before one that can: in either of the two lists. -/
theorem temperatures_stay_iff {d : Dict} {temps targets : List Json} {s : PrinterSnapshot}
    (htemps : d.get "nozzleTemps" = .arr temps)
    (htargets : d.get "nozzleTargetTemps" = .arr targets)
    (h : parseSnapshot d = .ok s) :
    StayWithTool temps targets s ↔
      MissingLast (temps.countP fun v => (elementReading v).isSome) (temps.map elementReading) ∧
        MissingLast (temps.countP fun v => (elementReading v).isSome) (targets.map elementReading) := by
  have hread : s.nozzleTemps = (temps.map elementReading).reduceOption :=
    floats_eq_ok (htemps ▸ parseSnapshot_eq_ok_iff.mp h .nozzleTemps)
  have hreadTargets : s.nozzleTargets = (targets.map elementReading).reduceOption :=
    floats_eq_ok (htargets ▸ parseSnapshot_eq_ok_iff.mp h .nozzleTargets)
  have hcount : temps.countP (fun v => (elementReading v).isSome) = s.nozzleTemps.length := by
    rw [hread, List.reduceOption_length_eq, ← List.countP_eq_length_filter, List.countP_map]
    rfl
  rw [hcount]
  constructor
  · intro hstay
    obtain ⟨status, hbuild, hstatus⟩ := exists_buildStatus s
    have hshown : ∀ i < s.nozzleTemps.length,
        (readingAt temps i).isSome ∧ readingAt targets i = s.nozzleTargets[i]? := by
      intro i hi
      have hentry : ("tool" ++ toString i,
          temperature (some s.nozzleTemps[i]) s.nozzleTargets[i]?) ∈ status.temperatures :=
        hstatus ▸ tool_mem_temperatures_iff.mpr ⟨_, List.getElem?_eq_getElem hi, rfl⟩
      obtain ⟨x, hx, ht⟩ := hstay.obico _ _ _ _ hbuild i _ hentry
      exact ⟨by simp [hx], (congrArg Temperature.target ht).symm⟩
    refine ⟨fun i hi _ _ _ => (hshown i hi).1, getElem?_reduceOption_iff.mp fun i hi => ?_⟩
    rw [← hreadTargets]
    exact (hshown i hi).2
  · rintro ⟨htempsLast, htargetsLast⟩
    have hplace : ∀ i x, s.nozzleTemps[i]? = some x →
        readingAt temps i = some x ∧ s.nozzleTargets[i]? = readingAt targets i := by
      intro i x hx
      have hi : i < s.nozzleTemps.length := (List.getElem?_eq_some_iff.mp hx).1
      have htemp := getElem?_reduceOption_iff.mpr htempsLast i hi
      have htarget := getElem?_reduceOption_iff.mpr htargetsLast i hi
      rw [← hread, hx] at htemp
      rw [← hreadTargets] at htarget
      exact ⟨htemp, htarget.symm⟩
    constructor
    · intro tracker stateText now status hbuild i t ht
      rw [temperatures_of_buildStatus hbuild] at ht
      obtain ⟨x, hx, rfl⟩ := tool_mem_temperatures_iff.mp ht
      obtain ⟨htemp, htarget⟩ := hplace i x hx
      exact ⟨x, htemp, by rw [htarget]⟩
    · intro stateText connected pending viewing cameras version now status hbuild printer hprinter
        nozzle hnozzle
      obtain ⟨left, -, hstatus⟩ := printer_of_buildConsoleStatus hbuild
      obtain rfl := Option.some.inj (hstatus.symm.trans hprinter)
      obtain ⟨hcurrent, htarget⟩ := mem_consoleNozzles_iff.mp hnozzle
      obtain ⟨htemp, htarget'⟩ := hplace nozzle.tool nozzle.current hcurrent
      exact ⟨htemp, htarget.trans htarget'⟩

/-- A reply whose last temperature cannot be read. -/
def legibleTemps : Dict :=
  [("nozzleTemps", .arr [.float 1, .float 0, .null]), ("nozzleTargetTemps", .arr [.float 1])]

/-- The other ones stay with their tools. -/
theorem legible_temps_stay : ∃ s, parseSnapshot legibleTemps = .ok s ∧
    StayWithTool [.float 1, .float 0, .null] [.float 1] s := by
  obtain ⟨s, hs⟩ : ∃ s, parseSnapshot legibleTemps = .ok s := ⟨_, rfl⟩
  refine ⟨s, hs, (temperatures_stay_iff rfl rfl hs).mpr ⟨?_, ?_⟩⟩
  · exact getElem?_reduceOption_iff.mp (by decide +kernel)
  · exact getElem?_reduceOption_iff.mp (by decide +kernel)

/-- The temperature of the second tool, when that of the first one cannot be read. -/
def shiftedTemps : Dict :=
  [("nozzleTemps", .arr [.str "x", .float 1]), ("nozzleTargetTemps", .arr [.float 0, .float 1])]

/-- It is shown as the first one's. -/
theorem shifted_temps_do_not_stay : ∃ s, parseSnapshot shiftedTemps = .ok s ∧
    ¬ StayWithTool [.str "x", .float 1] [.float 0, .float 1] s := by
  refine ⟨_, rfl, fun hstay => ?_⟩
  obtain ⟨x, hx, -⟩ := hstay.obico {} .operational 0 _ rfl 0 _ (List.mem_cons_self)
  have hnone : readingAt [.str "x", .float 1] 0 = none := by decide +kernel
  rw [hnone] at hx
  cases hx

end FlashforgeObico
