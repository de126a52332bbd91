/-
`Assertions`, the unit-test tool: a result and a note for each test code, and the exit
status of a test program.

A code keeps the first result that it is given. What comes later is appended to the note
(a failure after a failure), ignored (a pass or a skip after a failure, and `try_pass`
after anything), or refused by an exception (a result after a pass or a skip). `recorded`
says so for whole sequences of calls; what `print` reports and returns follows from it.

The texts that are printed are kept as data, without the colours and the time.
-/
import Kaiu.Library.Exit
import Mathlib.Algebra.Group.Nat.Defs
import Mathlib.Data.List.Induction
import Mathlib.Data.Nat.Notation
import Mathlib.Data.Int.Notation
import Mathlib.Logic.Function.Basic

set_option autoImplicit false

namespace Kaiu

open Exit

namespace Assertions

/-- `Assertions::result`. -/
inductive result where
  | unknown
  | skipped
  | passed
  | failed
  deriving DecidableEq, Repr

/-- What the functions throw. -/
inductive Error where
  | logic_error (what : String)
  | out_of_range
  deriving DecidableEq, Repr

/-- A line of the report. -/
inductive Line where
  | group (title : String)
  | test (state : result) (title note : String)
  deriving DecidableEq, Repr

/-- What `_print` collects: the lines, the codes of the tests that have failed or have
been missed, and the tests with each result. -/
structure Report where
  lines : List Line := []
  fail_codes : List String := []
  count : result → ℕ := fun _ => 0

/-- What is printed, in full or in one line, and the exit status. -/
structure Printed where
  report : Report
  full : Bool
  status : ℤ

end Assertions

/-- `Assertions`. A code in `strings` is absent in a group title; `list` is the map from
codes to results and notes. -/
structure Assertions where
  printed : Bool := false
  strings : List (Option String × String)
  list : String → Option (Assertions.result × String) := fun _ => none

namespace Assertions

/-- The codes of a list of tests. -/
def codes (strings : List (Option String × String)) : List String :=
  strings.filterMap Prod.fst

theorem codes_append (tests tests' : List (Option String × String)) :
    codes (tests ++ tests') = codes tests ++ codes tests' :=
  List.filterMap_append

/-- `list.emplace` of the constructor, for one test. -/
def emplace (s : Assertions) (test : Option String × String) : Except Error Assertions :=
  match test.1 with
  | none => .ok s
  | some code =>
    match s.list code with
    | none => .ok { s with list := Function.update s.list code (some (.unknown, "")) }
    | some _ => .error (.logic_error ("Duplicate test: '" ++ code ++ "'"))

/-- The constructor. -/
def create (strings : List (Option String × String)) : Except Error Assertions :=
  strings.foldlM emplace { strings := strings }

/-- `_set`; `list.at` throws in `_get` for a code that is not in the list. -/
def _set (code : String) (state : result) (note : String) (s : Assertions) :
    Ended Assertions Error :=
  match s.list code with
  | none => throws s .out_of_range
  | some (.unknown, _) =>
    returns { s with list := Function.update s.list code (some (state, note)) }
  | some (.failed, old) =>
    if state = .failed then
      if old.isEmpty then
        returns { s with list := Function.update s.list code (some (state, note)) }
      else
        let also := old ++ " \x1b[1malso\x1b[22m " ++ note
        returns { s with list := Function.update s.list code (some (.failed, also)) }
    else returns s
  | some (.passed, _) | some (.skipped, _) =>
    throws s (.logic_error ("Two results set for test '" ++ code ++ "'"))

/-- `set`. -/
def set (code : String) (state : result) (note : String) (s : Assertions) :
    Ended Assertions Error :=
  _set code state note s

def pass (code note : String) (s : Assertions) : Ended Assertions Error :=
  set code .passed note s

def fail (code note : String) (s : Assertions) : Ended Assertions Error :=
  set code .failed note s

def skip (code note : String) (s : Assertions) : Ended Assertions Error :=
  set code .skipped note s

/-- `expect`, where `equal` is the value of `actual == expect`. -/
def expect (equal : Bool) (assertion note : String) (s : Assertions) : Ended Assertions Error :=
  if equal then pass assertion note s else fail assertion note s

def try_pass (code note : String) (s : Assertions) : Ended Assertions Error :=
  match s.list code with
  | none => throws s .out_of_range
  | some (.unknown, _) => _set code .passed note s
  | some _ => returns s

/-- `list[code]`, of a code that is in the list. -/
def at_code (s : Assertions) (code : String) : result × String :=
  (s.list code).getD (.unknown, "")

/-- The loop of `_print`, for one test. -/
def Report.add (s : Assertions) (out : Report) (test : Option String × String) : Report :=
  match test.1 with
  | none => { out with lines := out.lines ++ [.group test.2] }
  | some code =>
    let (result, note) := s.at_code code
    { lines := out.lines ++ [.test result test.2 note]
      fail_codes :=
        if result = .failed ∨ result = .unknown then out.fail_codes ++ [code] else out.fail_codes
      count := Function.update out.count result (out.count result + 1) }

/-- What `_print` collects. -/
def report (s : Assertions) : Report :=
  s.strings.foldl (Report.add s) {}

/-- The conversion of a `size_t` to `int`. -/
def to_int (n : ℕ) : ℤ :=
  (n : ℤ).bmod (2 ^ 32)

def _print (always : Bool) (s : Assertions) : Assertions × Printed :=
  let out := s.report
  ({ s with printed := true },
    { report := out
      full := always || decide (0 < out.count .failed + out.count .skipped + out.count .unknown)
      status := to_int (out.count .failed + out.count .unknown) })

/-- `print(always)`. -/
def print (always : Bool) (s : Assertions) : Assertions × Printed :=
  _print always s

/-- `print(argc, argv)`. -/
def print_args (argv : List String) (s : Assertions) : Assertions × Printed :=
  let quiet := (argv.drop 1).any (· == "--test-silent-if-perfect")
  _print (!quiet) s

/-- A call of one of the functions that give a result to a code. -/
inductive Call where
  | pass (code note : String)
  | fail (code note : String)
  | skip (code note : String)
  | expect (equal : Bool) (code note : String)
  | try_pass (code note : String)

namespace Call

/-- The code that a result is given to. -/
def code : Call → String
  | pass code _ | fail code _ | skip code _ | expect _ code _ | try_pass code _ => code

/-- The result that is given. -/
def gives : Call → result
  | pass _ _ | try_pass _ _ | expect true _ _ => .passed
  | fail _ _ | expect false _ _ => .failed
  | skip _ _ => .skipped

def run : Call → Assertions → Ended Assertions Error
  | pass code note => Assertions.pass code note
  | fail code note => Assertions.fail code note
  | skip code note => Assertions.skip code note
  | expect equal code note => Assertions.expect equal code note
  | try_pass code note => Assertions.try_pass code note

end Call

/-- Calls one after the other, by a caller that catches what they throw. -/
def after (calls : List Call) (s : Assertions) : Assertions :=
  calls.foldl (fun s call => (call.run s).1) s

variable {s : Assertions} {strings : List (Option String × String)} {calls : List Call}
  {code : String}

/-! ## The result of a code -/

/-- The result that a sequence of calls leaves a code with: the first one it is given. -/
def recorded (code : String) : List Call → result
  | [] => .unknown
  | call :: calls => if call.code = code then call.gives else recorded code calls

theorem Call.gives_ne_unknown (call : Call) : call.gives ≠ .unknown := by
  rcases call with _ | _ | _ | ⟨equal, _, _⟩ | _
  case expect => cases equal <;> simp [gives]
  all_goals simp [gives]

/-- A call counts if there is no result yet. -/
theorem recorded_append (calls : List Call) (call : Call) :
    recorded code (calls ++ [call]) =
      if recorded code calls = .unknown ∧ call.code = code then call.gives
      else recorded code calls := by
  induction calls with
  | nil => simp [recorded]
  | cons first calls ih =>
    rw [List.cons_append, recorded, recorded, ih]
    by_cases hfirst : first.code = code
    · simp [hfirst, first.gives_ne_unknown]
    · simp [hfirst]

/-- A code is given a pass or a skip, and no fail before it. -/
def PassedFirst (code : String) (calls : List Call) : Prop :=
  ∃ before call later, calls = before ++ call :: later ∧ call.code = code ∧
    (call.gives = .passed ∨ call.gives = .skipped) ∧
    ∀ call' ∈ before, call'.code = code → call'.gives ≠ .failed

/-- These are the codes that have passed or have been skipped in the end. -/
theorem passedFirst_iff :
    PassedFirst code calls ↔ recorded code calls = .passed ∨ recorded code calls = .skipped := by
  induction calls with
  | nil =>
    refine iff_of_false ?_ (by simp [recorded])
    rintro ⟨before, call, later, heq, -⟩
    cases before <;> cases heq
  | cons first calls ih =>
    rw [recorded]
    by_cases hfirst : first.code = code
    · rw [if_pos hfirst]
      constructor
      · rintro ⟨before, call, later, heq, -, hgives, hbefore⟩
        cases before with
        | nil =>
          cases heq
          exact hgives
        | cons call' before =>
          cases heq
          have hnot := hbefore first (List.mem_cons_self ..) hfirst
          have hne := first.gives_ne_unknown
          cases h : first.gives <;> simp_all
      · intro hgives
        exact ⟨[], first, calls, rfl, hfirst, hgives, fun _ hmem => (by cases hmem)⟩
    · rw [if_neg hfirst, ← ih]
      constructor
      · rintro ⟨before, call, later, heq, hcode, hgives, hbefore⟩
        cases before with
        | nil =>
          cases heq
          exact absurd hcode hfirst
        | cons call' before =>
          cases heq
          exact ⟨before, call, later, rfl, hcode, hgives,
            fun call' hmem => hbefore call' (List.mem_cons_of_mem _ hmem)⟩
      · rintro ⟨before, call, later, rfl, hcode, hgives, hbefore⟩
        refine ⟨first :: before, call, later, rfl, hcode, hgives, fun call' hmem heq => ?_⟩
        rcases List.mem_cons.mp hmem with rfl | hmem
        · exact absurd heq hfirst
        · exact hbefore call' hmem heq

/-- What is stored after the calls: every code of a test has the result that is recorded
for it, and there are no other codes. -/
structure Holds (strings : List (Option String × String)) (calls : List Call) (s : Assertions) :
    Prop where
  strings_eq : s.strings = strings
  result_eq : ∀ code ∈ codes strings, ∃ note, s.list code = some (recorded code calls, note)
  none_else : ∀ code, code ∉ codes strings → s.list code = none

/-- A result is set. -/
theorem Holds.update (h : Holds strings calls s) {call : Call} {state : result} {note : String}
    (hcode : call.code ∈ codes strings) (hstate : recorded call.code (calls ++ [call]) = state) :
    Holds strings (calls ++ [call]) { s with
      list := Function.update s.list call.code (some (state, note)) } where
  strings_eq := h.strings_eq
  result_eq code hmem := by
    by_cases heq : code = call.code
    · subst heq
      exact ⟨note, by rw [hstate]; exact Function.update_self ..⟩
    · obtain ⟨note', hnote⟩ := h.result_eq code hmem
      refine ⟨note', ?_⟩
      rw [recorded_append, if_neg fun h => heq h.2.symm]
      exact (Function.update_of_ne heq ..).trans hnote
  none_else code hmem := by
    have hne : code ≠ call.code := fun heq => hmem (heq ▸ hcode)
    exact (Function.update_of_ne hne ..).trans (h.none_else code hmem)

/-- A call does not change anything. -/
theorem Holds.keep (h : Holds strings calls s) {call : Call}
    (hkeep : call.code ∈ codes strings → recorded call.code calls ≠ .unknown) :
    Holds strings (calls ++ [call]) s where
  strings_eq := h.strings_eq
  result_eq code hmem := by
    obtain ⟨note, hnote⟩ := h.result_eq code hmem
    refine ⟨note, ?_⟩
    rw [recorded_append, if_neg]
    · exact hnote
    · rintro ⟨hunknown, rfl⟩
      exact hkeep hmem hunknown
  none_else := h.none_else

/-- **`_set`** records the first result. -/
theorem Holds.sets (h : Holds strings calls s) (call : Call) (note : String) :
    Holds strings (calls ++ [call]) (_set call.code call.gives note s).1 := by
  unfold Assertions._set
  by_cases hmem : call.code ∈ codes strings
  · obtain ⟨old, hold⟩ := h.result_eq call.code hmem
    have happend : recorded call.code (calls ++ [call]) = if
        recorded call.code calls = .unknown ∧ call.code = call.code then call.gives
        else recorded call.code calls := recorded_append calls call
    rw [hold]
    cases hrecorded : recorded call.code calls with
    | unknown =>
      rw [hrecorded, if_pos ⟨rfl, rfl⟩] at happend
      exact h.update hmem happend
    | failed =>
      rw [hrecorded, if_neg (by simp)] at happend
      by_cases hfailed : call.gives = .failed
      · simp only [if_pos hfailed]
        split
        · exact h.update hmem (happend.trans hfailed.symm)
        · exact h.update hmem happend
      · simp only [if_neg hfailed]
        exact h.keep fun _ => by rw [hrecorded]; simp
    | passed | skipped => exact h.keep fun _ => by rw [hrecorded]; simp
  · rw [h.none_else _ hmem]
    exact h.keep fun hmem' => absurd hmem' hmem

/-- **Every call** records the first result. -/
theorem Holds.run (h : Holds strings calls s) (call : Call) :
    Holds strings (calls ++ [call]) (call.run s).1 := by
  cases call with
  | pass code note => exact h.sets (.pass code note) note
  | fail code note => exact h.sets (.fail code note) note
  | skip code note => exact h.sets (.skip code note) note
  | expect equal code note =>
    cases equal with
    | true => exact h.sets (.expect true code note) note
    | false => exact h.sets (.expect false code note) note
  | try_pass code note =>
    simp only [Call.run, try_pass]
    by_cases hmem : code ∈ codes strings
    · obtain ⟨old, hold⟩ := h.result_eq code hmem
      rw [hold]
      cases hrecorded : recorded code calls with
      | unknown => exact h.sets (.try_pass code note) note
      | passed | skipped | failed =>
        refine h.keep fun _ => ?_
        show recorded code calls ≠ .unknown
        rw [hrecorded]
        simp
    · rw [h.none_else _ hmem]
      exact h.keep fun hmem' => absurd hmem' hmem

/-- The codes of `tests` have been stored, without a result, and no others. -/
def Stored (tests : List (Option String × String)) (s : Assertions) : Prop :=
  ∀ code, s.list code = if code ∈ codes tests then some (.unknown, "") else none

/-- One more test is stored. -/
theorem Stored.emplace {done : List (Option String × String)} {test : Option String × String}
    (h : Stored done s) (hnodup : (codes (done ++ [test])).Nodup) :
    ∃ s', emplace s test = .ok s' ∧ s'.strings = s.strings ∧ Stored (done ++ [test]) s' := by
  obtain ⟨code, title⟩ := test
  cases code with
  | none =>
    refine ⟨s, rfl, rfl, fun code => ?_⟩
    rw [h code, codes_append, show codes [((none : Option String), title)] = [] from rfl,
      List.append_nil]
  | some code =>
    have hnot : code ∉ codes done := by
      intro hmem
      have hpair := hnodup
      rw [codes_append, List.nodup_append] at hpair
      exact hpair.2.2 code hmem code (List.mem_singleton_self code) rfl
    have hlist : s.list code = none := by rw [h code, if_neg hnot]
    refine ⟨{ s with list := Function.update s.list code (some (.unknown, "")) }, ?_, rfl,
      fun code' => ?_⟩
    · simp only [Assertions.emplace]
      rw [hlist]
    have hcodes : codes (done ++ [(some code, title)]) = codes done ++ [code] := codes_append ..
    rw [hcodes]
    by_cases heq : code' = code
    · subst heq
      rw [if_pos (by simp)]
      exact Function.update_self ..
    · refine (Function.update_of_ne heq ..).trans ((h code').trans ?_)
      simp [heq]

/-- The tests are stored one after the other. The induction is on those that are left. -/
theorem Stored.foldlM {done tests : List (Option String × String)} (h : Stored done s)
    (hnodup : (codes (done ++ tests)).Nodup) :
    ∃ s', tests.foldlM Assertions.emplace s = .ok s' ∧ s'.strings = s.strings ∧
      Stored (done ++ tests) s' := by
  induction tests generalizing s done with
  | nil => exact ⟨s, rfl, rfl, by rwa [List.append_nil]⟩
  | cons test tests ih =>
    rw [← List.singleton_append, ← List.append_assoc] at hnodup
    have hfirst : (codes (done ++ [test])).Nodup := by
      rw [codes_append] at hnodup
      exact (List.nodup_append.mp hnodup).1
    obtain ⟨s₁, hemplace, hstrings₁, h₁⟩ := h.emplace hfirst
    obtain ⟨s', hfold, hstrings, h'⟩ := ih h₁ hnodup
    refine ⟨s', ?_, hstrings.trans hstrings₁, ?_⟩
    · rw [List.foldlM_cons, hemplace]
      exact hfold
    · rwa [List.append_assoc, List.singleton_append] at h'

/-- **The constructor** stores distinct codes. -/
theorem create_holds (hcodes : (codes strings).Nodup) :
    ∃ s, create strings = .ok s ∧ Holds strings [] s := by
  have hempty : Stored [] { strings := strings } := fun _ => rfl
  obtain ⟨s, hs, hstrings, hstored⟩ := hempty.foldlM hcodes
  refine ⟨s, hs, hstrings, fun code hmem => ⟨"", ?_⟩, fun code hmem => ?_⟩
  · exact (hstored code).trans (if_pos hmem)
  · exact (hstored code).trans (if_neg hmem)

/-- **What a sequence of calls leaves.** The induction is on the calls. -/
theorem Holds.after (h : Holds strings [] s) (calls : List Call) :
    Holds strings calls (after calls s) := by
  induction calls using List.reverseRecOn with
  | nil => exact h
  | append_singleton calls call ih =>
    rw [Assertions.after, List.foldl_append]
    exact ih.run call

/-! ## The report -/

/-- The tests of a report are counted by result, and the codes of those that have failed
or have been missed are listed. The induction is on the tests. -/
theorem foldl_add (s : Assertions) (tests : List (Option String × String)) (out : Report) :
    (∀ state, (tests.foldl (Report.add s) out).count state
      = out.count state + (codes tests).countP (fun code => (s.at_code code).1 = state)) ∧
    (tests.foldl (Report.add s) out).fail_codes = out.fail_codes ++ (codes tests).filter fun code =>
      (s.at_code code).1 = .failed ∨ (s.at_code code).1 = .unknown := by
  induction tests generalizing out with
  | nil => simp [codes]
  | cons test tests ih =>
    obtain ⟨code, title⟩ := test
    obtain ⟨hcount, hcodes⟩ := ih (Report.add s out (code, title))
    rw [List.foldl_cons]
    cases code with
    | none => exact ⟨hcount, hcodes⟩
    | some code =>
      have hcons : codes ((some code, title) :: tests) = code :: codes tests := rfl
      rw [hcons]
      refine ⟨fun state => ?_, ?_⟩
      · rw [hcount, List.countP_cons]
        by_cases hstate : (s.at_code code).1 = state
        · simp [Report.add, hstate]
          omega
        · simp [Report.add, Function.update_of_ne (Ne.symm hstate), hstate]
      · rw [hcodes, List.filter_cons]
        by_cases hfail : (s.at_code code).1 = .failed ∨ (s.at_code code).1 = .unknown
        · simp [Report.add, hfail]
        · simp [Report.add, hfail]

/-- **The report** counts the results that have been recorded. -/
theorem Holds.count (h : Holds strings calls s) (state : result) :
    s.report.count state = (codes strings).countP fun code => recorded code calls = state := by
  have hcount := (foldl_add s s.strings {}).1 state
  rw [report, hcount, h.strings_eq]
  refine (Nat.zero_add _).trans (List.countP_congr fun code hmem => ?_)
  obtain ⟨note, hnote⟩ := h.result_eq code hmem
  simp [at_code, hnote]

/-- The conversion of a number is zero for the multiples of 2^32. -/
theorem to_int_eq_zero {n : ℕ} : to_int n = 0 ↔ 2 ^ 32 ∣ n := by
  unfold to_int
  rw [Int.bmod_def]
  split <;> omega

instance : Decidable (PassedFirst code calls) :=
  decidable_of_iff _ passedFirst_iff.symm

/-- The number of codes that have not passed and have not been skipped. -/
def not_passed (strings : List (Option String × String)) (calls : List Call) : ℕ :=
  (codes strings).countP fun code => ¬ PassedFirst code calls

/-- These codes have failed, or have been given no result. -/
theorem countP_failed_add_unknown (calls : List Call) (l : List String) :
    (l.countP fun code => recorded code calls = .failed) +
        (l.countP fun code => recorded code calls = .unknown)
      = l.countP fun code => ¬ PassedFirst code calls := by
  induction l with
  | nil => rfl
  | cons code l ih =>
    rw [List.countP_cons, List.countP_cons, List.countP_cons, ← ih]
    have hcode : PassedFirst code calls
        ↔ recorded code calls = .passed ∨ recorded code calls = .skipped := passedFirst_iff
    cases hr : recorded code calls <;> simp [hcode, hr] <;> omega

/-- Of fewer than 2^32 codes, the number is a multiple of 2^32 if it is zero. -/
theorem dvd_not_passed_iff (hlen : (codes strings).length < 2 ^ 32) (calls : List Call) :
    2 ^ 32 ∣ not_passed strings calls ↔ ∀ code ∈ codes strings, PassedFirst code calls := by
  have hle : not_passed strings calls ≤ (codes strings).length := List.countP_le_length
  rw [Nat.dvd_iff_mod_eq_zero, Nat.mod_eq_of_lt (Nat.lt_of_le_of_lt hle hlen), not_passed,
    List.countP_eq_zero]
  simp only [decide_eq_true_eq, not_not]

/-- The exit status is the number of codes that have not passed and have not been skipped. -/
theorem Holds.status_eq (h : Holds strings calls s) (always : Bool) :
    (_print always s).2.status = to_int (not_passed strings calls) := by
  simp only [_print]
  rw [h.count .failed, h.count .unknown, countP_failed_add_unknown, not_passed]

/-- A failure of a code that has passed or has been skipped is refused. -/
theorem Holds.fail_refused (h : Holds strings calls s) (hmem : code ∈ codes strings)
    (hpassed : PassedFirst code calls) (note : String) :
    fail code note s = throws s (.logic_error ("Two results set for test '" ++ code ++ "'")) := by
  obtain ⟨old, hold⟩ := h.result_eq code hmem
  rw [fail, set, _set, hold]
  rcases passedFirst_iff.mp hpassed with hr | hr
  · rw [hr]
  · rw [hr]

/-- **The exit status.** After any calls whose exceptions are caught, `print` returns zero if
and only if the number of codes that have not been given a pass or a skip, with no fail
before it, is a multiple of 2^32: of fewer than 2^32 codes, if and only if every code has
been given one. A fail after it is refused by an exception, and changes nothing. -/
theorem print_zero_iff (hcodes : (codes strings).Nodup) (calls : List Call) :
    ∃ s, create strings = .ok s ∧
      (∀ always, (print always (after calls s)).2.status = 0
        ↔ 2 ^ 32 ∣ not_passed strings calls) ∧
      (∀ argv, (print_args argv (after calls s)).2.status = 0
        ↔ 2 ^ 32 ∣ not_passed strings calls) ∧
      ((codes strings).length < 2 ^ 32 →
        (2 ^ 32 ∣ not_passed strings calls
          ↔ ∀ code ∈ codes strings, PassedFirst code calls)) ∧
      ∀ code ∈ codes strings, PassedFirst code calls → ∀ note,
        fail code note (after calls s) = throws (after calls s)
          (.logic_error ("Two results set for test '" ++ code ++ "'")) := by
  obtain ⟨s, hs, hcreated⟩ := create_holds hcodes
  have hholds := hcreated.after calls
  refine ⟨s, hs, fun always => ?_, fun argv => ?_, fun hlen => dvd_not_passed_iff hlen calls,
    fun code hmem hpassed note => hholds.fail_refused hmem hpassed note⟩
  · rw [print, hholds.status_eq, to_int_eq_zero]
  · rw [print_args, hholds.status_eq, to_int_eq_zero]

theorem print_zero_iff_pass_fail :
    ∃ s, create [(none, "Group"), (some "TEST", "A test")] = .ok s ∧
      (∀ always, (print always (after [.pass "TEST" "", .fail "TEST" ""] s)).2.status = 0
        ↔ 2 ^ 32 ∣ not_passed [(none, "Group"), (some "TEST", "A test")]
          [.pass "TEST" "", .fail "TEST" ""]) ∧
      not_passed [(none, "Group"), (some "TEST", "A test")]
        [.pass "TEST" "", .fail "TEST" ""] = 0 := by
  have hcodes : (codes [(none, "Group"), (some "TEST", "A test")]).Nodup := by decide
  obtain ⟨s, hs, hprint, -⟩ := print_zero_iff hcodes [.pass "TEST" "", .fail "TEST" ""]
  exact ⟨s, hs, hprint, by decide⟩

/-- A failure after a pass does not show in the exit status. -/
theorem not_status_of_fails :
    ¬ ∀ (strings : List (Option String × String)) (s : Assertions) (calls : List Call)
      (always : Bool), (codes strings).Nodup → create strings = .ok s →
      (∀ call ∈ calls, call.code ∈ codes strings) →
      ((print always (after calls s)).2.status = 0 ↔
        (∀ code ∈ codes strings, ∃ call ∈ calls, call.code = code ∧
          (call.gives = .passed ∨ call.gives = .skipped)) ∧
        ∀ call ∈ calls, call.gives ≠ .failed) := by
  intro h
  obtain ⟨s, hs⟩ : ∃ s, create [(some "TEST", "A test")] = .ok s := ⟨_, rfl⟩
  have hiff := h [(some "TEST", "A test")] s [.pass "TEST" "", .fail "TEST" ""] true (by decide) hs
    (by decide)
  cases hs
  exact (hiff.mp (by decide)).2 (.fail "TEST" "") (by simp) rfl

end Assertions
end Kaiu
