import OxideSwarm.Master.MapReduce

/-!
# Built-in reducers (`master/src/mapreduce.rs`)

`reduce_builtin` adds up in `i128`, falls back to `f64`, and compares in both at once.  Floating point is a parameter
(`Float64`): on integers the sums, maxima and minima are exact and the floats are never looked at
(`reduceBuiltin_integers`).
-/

namespace OxideSwarm

/-- `f64`, as far as the reducers use it. -/
class Float64 where
  F : Type
  zero : F
  ofInt : Int → F
  add : F → F → F
  max : F → F → F
  min : F → F → F
  isFinite : F → Bool
  parse : String → Option F

open Float64 (F)

variable [Float64]

/-- `serde_json::Value`. -/
inductive JsonValue where
  | null
  | bool (b : Bool)
  | int (n : Int)
  | float (f : F)
  | string (s : String)
  | array (items : List JsonValue)
  | object (fields : List (String × JsonValue))

/-- `parse::<i64>()`. -/
def parseI64 (s : String) : Option Int :=
  match s.toList with
  | '-' :: digits =>
    if digits.head? = some '+' then none else (Text.parseNat (2 ^ 63) (String.ofList digits)).map fun n => -Int.ofNat n
  | _ => (Text.parseNat (2 ^ 63 - 1) s).map Int.ofNat

namespace JsonValue

def asI64 : JsonValue → Option Int
  | int n => if -2 ^ 63 ≤ n ∧ n < 2 ^ 63 then some n else none
  | _ => none

def asF64 : JsonValue → Option F
  | int n => some (Float64.ofInt n)
  | float f => some f
  | _ => none

def asStr : JsonValue → Option String
  | string s => some s
  | _ => none

/-- The integer that a value stands for. -/
def parsedI (v : JsonValue) : Option Int := v.asI64.or (v.asStr.bind parseI64)

/-- The float that a value stands for that is not an integer. -/
def parsedF (v : JsonValue) : Option F :=
  if v.parsedI.isSome then none else (v.asF64.or (v.asStr.bind Float64.parse)).filter Float64.isFinite

end JsonValue

open JsonValue

structure SumAcc where
  sumI : Int := 0
  sumF : F := Float64.zero
  hasFloat : Bool := false
  overflowI128 : Bool := false
  hasUsable : Bool := false

def overflowed : GridError := .config "f64 sum overflowed to infinity"

/-- The accumulator after a float was added. -/
def SumAcc.checked (acc : SumAcc) : Except GridError SumAcc :=
  if Float64.isFinite acc.sumF then .ok { acc with hasUsable := true } else .error overflowed

def SumAcc.push (acc : SumAcc) (v : JsonValue) : Except GridError SumAcc :=
  match v.parsedI with
  | some n =>
    if acc.overflowI128 then { acc with sumF := Float64.add acc.sumF (Float64.ofInt n) : SumAcc }.checked
    else if -2 ^ 127 ≤ acc.sumI + n ∧ acc.sumI + n < 2 ^ 127 then .ok { acc with sumI := acc.sumI + n, hasUsable := true }
    else SumAcc.checked { acc with
      overflowI128 := true
      sumF := Float64.add acc.sumF (Float64.add (Float64.ofInt acc.sumI) (Float64.ofInt n))
      sumI := 0 }
  | none =>
    match v.parsedF with
    | some f => SumAcc.checked { acc with hasFloat := true, sumF := Float64.add acc.sumF f }
    | none => .ok acc

def SumAcc.finish (acc : SumAcc) : Except GridError (Option JsonValue) :=
  if !acc.hasUsable then .ok none
  else if acc.hasFloat || acc.overflowI128 then
    let total := Float64.add acc.sumF (Float64.ofInt acc.sumI)
    if Float64.isFinite total then .ok (some (.float total)) else .error overflowed
  else if -2 ^ 63 ≤ acc.sumI ∧ acc.sumI < 2 ^ 63 then .ok (some (.int acc.sumI))
  else .ok (some (.float (Float64.ofInt acc.sumI)))

/-- The accumulators of `max` and of `min`. -/
structure BestAcc where
  bestI : Option Int := none
  bestF : Option F := none
  isFloat : Bool := false

/-- The loop body of `max` and of `min`; the order in which they try the readings of a value does not matter. -/
def BestAcc.push (pickI : Int → Int → Int) (pickF : F → F → F) (acc : BestAcc) (v : JsonValue) : BestAcc :=
  let withF (f : F) := some (acc.bestF.elim f (pickF · f))
  match v.parsedI with
  | some n => { acc with bestI := some (acc.bestI.elim n (pickI · n)), bestF := withF (Float64.ofInt n) }
  | none =>
    match v.parsedF with
    | some f => { acc with isFloat := true, bestF := withF f }
    | none => acc

def BestAcc.finish (acc : BestAcc) : Option JsonValue :=
  if acc.isFloat then acc.bestF.map .float else acc.bestI.map .int

/-- `reduce_builtin`; `display` is the text of a value. -/
def reduceBuiltin (display : JsonValue → String) (operator : String) (values : List JsonValue) :
    Except GridError (Option JsonValue) :=
  if operator = "sum" then do (← values.foldlM SumAcc.push {}).finish
  else if operator = "count" then .ok (some (.int values.length))
  else if operator = "max" then .ok (values.foldl (BestAcc.push max Float64.max) {}).finish
  else if operator = "min" then .ok (values.foldl (BestAcc.push min Float64.min) {}).finish
  else if operator = "concat" then .ok (some (.string (Text.join "," (values.map display))))
  else .error (.config ("Unsupported builtin reducer operator: " ++ operator))

/-! ## Integers -/

/-- A slice: its length is that of something in memory. -/
abbrev Slice (α : Type) := { l : List α // l.length < 2 ^ 63 }

def integers (values : List JsonValue) : List Int := values.filterMap parsedI

theorem parsedI_range {v : JsonValue} {n : Int} (h : v.parsedI = some n) : -2 ^ 63 ≤ n ∧ n < 2 ^ 63 := by
  rcases Option.or_eq_some_iff.mp h with h | ⟨-, h⟩
  · cases v with
    | int m =>
      obtain ⟨hm, h⟩ := Option.ite_none_right_eq_some.mp h
      cases h
      exact hm
    | _ => cases h
  · obtain ⟨s, -, h⟩ := Option.bind_eq_some_iff.mp h
    unfold parseI64 at h
    split at h
    · obtain ⟨-, h⟩ := Option.ite_none_left_eq_some.mp h
      obtain ⟨k, hk, rfl⟩ := Option.map_eq_some_iff.mp h
      have hle := Text.parseNat_le hk
      simp only [Int.ofNat_eq_natCast]
      omega
    · obtain ⟨k, hk, rfl⟩ := Option.map_eq_some_iff.mp h
      have hle := Text.parseNat_le hk
      simp only [Int.ofNat_eq_natCast]
      omega

/-- The loop of `sum` over integers, with room for as many more as there are values. -/
theorem foldlM_push {values : List JsonValue} (hint : ∀ v ∈ values, v.parsedF = none) (acc : SumAcc)
    (hacc : acc.overflowI128 = false) (hroom : -2 ^ 126 ≤ acc.sumI - 2 ^ 63 * values.length ∧
      acc.sumI + 2 ^ 63 * values.length ≤ 2 ^ 126) :
    values.foldlM SumAcc.push acc = .ok { acc with
      sumI := acc.sumI + (integers values).sum
      hasUsable := acc.hasUsable || !(integers values).isEmpty } := by
  induction values generalizing acc with
  | nil => simp [integers, pure, Except.pure]
  | cons v values ih =>
    obtain ⟨hv, hint⟩ := List.forall_mem_cons.mp hint
    rw [List.foldlM_cons]
    simp only [List.length_cons] at hroom
    cases hn : v.parsedI with
    | some n =>
      have hrange := parsedI_range hn
      have hpush : acc.push v = .ok { acc with sumI := acc.sumI + n, hasUsable := true } := by
        unfold SumAcc.push
        simp only [hn, hacc]
        rw [if_neg (by simp), if_pos (by omega)]
      rw [hpush]
      refine (ih hint { acc with sumI := acc.sumI + n, hasUsable := true } hacc (by dsimp only; omega)).trans ?_
      simp [integers, hn, Int.add_assoc]
    | none =>
      have hpush : acc.push v = .ok acc := by
        unfold SumAcc.push
        simp only [hn, hv]
      rw [hpush]
      refine (ih hint acc hacc (by omega)).trans ?_
      simp [integers, hn]

/-- The loop of `max` or of `min` over integers. -/
theorem foldl_push {values : List JsonValue} (hint : ∀ v ∈ values, v.parsedF = none) (pickI : Int → Int → Int)
    (pickF : F → F → F) (acc : BestAcc) (hacc : acc.isFloat = false) :
    (values.foldl (BestAcc.push pickI pickF) acc).finish =
      ((integers values).foldl (fun best n => some (best.elim n (pickI · n))) acc.bestI).map .int := by
  induction values generalizing acc with
  | nil => simp [integers, BestAcc.finish, hacc]
  | cons v values ih =>
    obtain ⟨hv, hint⟩ := List.forall_mem_cons.mp hint
    rw [List.foldl_cons]
    cases hn : v.parsedI with
    | some n =>
      rw [ih hint]
      · simp [integers, BestAcc.push, hn]
      · simp [BestAcc.push, hn, hacc]
    | none =>
      rw [ih hint]
      · simp [integers, BestAcc.push, hn, hv]
      · simp [BestAcc.push, hn, hv, hacc]

/-- The sum of integers as a value, if there is one to add. -/
def exactSum (ns : List Int) : Option JsonValue :=
  if ns = [] then none
  else some (if -2 ^ 63 ≤ ns.sum ∧ ns.sum < 2 ^ 63 then .int ns.sum else .float (Float64.ofInt ns.sum))

theorem reduceBuiltin_sum (display : JsonValue → String) (values : Slice JsonValue)
    (hint : ∀ v ∈ values.val, v.parsedF = none) :
    reduceBuiltin display "sum" values.val = .ok (exactSum (integers values.val)) := by
  have hlength := values.2
  unfold reduceBuiltin exactSum
  rw [if_pos rfl, foldlM_push hint {} rfl (by dsimp only; omega)]
  simp only [bind, Except.bind, SumAcc.finish]
  by_cases hempty : integers values.val = []
  · simp [hempty]
  · simp only [Int.zero_add, Bool.false_or, Bool.not_not, List.isEmpty_iff, hempty, if_false, Bool.false_eq_true]
    split_ifs <;> rfl

omit [Float64] in
theorem foldl_best (pickI : Int → Int → Int) (n : Int) (ns : List Int) :
    (n :: ns).foldl (fun best n => some (best.elim n (pickI · n))) none = some (ns.foldl pickI n) := by
  rw [List.foldl_cons, Option.elim_none]
  induction ns generalizing n with
  | nil => rfl
  | cons m ns ih => exact ih (pickI n m)

theorem reduceBuiltin_best (display : JsonValue → String) {values : List JsonValue}
    (hint : ∀ v ∈ values, v.parsedF = none) :
    reduceBuiltin display "max" values = .ok ((integers values).max?.map .int) ∧
      reduceBuiltin display "min" values = .ok ((integers values).min?.map .int) := by
  have hmax := foldl_push hint max Float64.max {} rfl
  have hmin := foldl_push hint min Float64.min {} rfl
  unfold reduceBuiltin
  simp only [reduceIte, String.reduceEq, hmax, hmin]
  cases integers values with
  | nil => exact ⟨rfl, rfl⟩
  | cons n ns => exact ⟨by rw [foldl_best]; rfl, by rw [foldl_best]; rfl⟩

/-- **On integers the reducers are exact and do not depend on the order of the values.** -/
theorem reduceBuiltin_integers (display : JsonValue → String) (values : Slice JsonValue)
    (hint : ∀ v ∈ values.val, v.parsedF = none) :
    reduceBuiltin display "sum" values.val = .ok (exactSum (integers values.val)) ∧
    reduceBuiltin display "max" values.val = .ok ((integers values.val).max?.map .int) ∧
    reduceBuiltin display "min" values.val = .ok ((integers values.val).min?.map .int) ∧
    reduceBuiltin display "count" values.val = .ok (some (.int values.val.length)) ∧
    ∀ values' : Slice JsonValue, values'.val.Perm values.val → ∀ operator ∈ ["sum", "max", "min", "count"],
      reduceBuiltin display operator values'.val = reduceBuiltin display operator values.val := by
  have hsum := reduceBuiltin_sum display values hint
  obtain ⟨hmax, hmin⟩ := reduceBuiltin_best display hint
  have hcount : ∀ l, reduceBuiltin display "count" l = .ok (some (.int l.length)) := by
    intro l
    simp [reduceBuiltin]
  refine ⟨hsum, hmax, hmin, hcount _, fun values' hperm operator hop => ?_⟩
  have hint' : ∀ v ∈ values'.val, v.parsedF = none := fun v hv => hint v (hperm.mem_iff.mp hv)
  have hints : (integers values'.val).Perm (integers values.val) := hperm.filterMap _
  obtain ⟨hmax', hmin'⟩ := reduceBuiltin_best display hint'
  simp only [List.mem_cons, List.not_mem_nil, or_false] at hop
  rcases hop with rfl | rfl | rfl | rfl
  · rw [hsum, reduceBuiltin_sum display values' hint']
    simp only [exactSum, hints.sum_eq, ← List.length_eq_zero_iff, hints.length_eq]
  · rw [hmax, hmax']
    congr 2
    exact Option.ext fun a => by simp [List.max?_eq_some_iff, hints.mem_iff]
  · rw [hmin, hmin']
    congr 2
    exact Option.ext fun a => by simp [List.min?_eq_some_iff, hints.mem_iff]
  · rw [hcount, hcount, hperm.length_eq]

/-- Floats that are never looked at. -/
@[reducible] def Float64.none : Float64 where
  F := Unit
  zero := ()
  ofInt _ := ()
  add _ _ := ()
  max _ _ := ()
  min _ _ := ()
  isFinite _ := true
  parse _ := .none

omit [Float64] in
theorem reduceBuiltin_integers_three : letI := Float64.none
    reduceBuiltin (fun _ => "") "sum" [.int 5, .string "-7", .null] = .ok (some (.int (-2))) :=
  letI := Float64.none
  (reduceBuiltin_integers (fun _ => "") ⟨[.int 5, .string "-7", .null], by decide⟩ (by simp; exact ⟨rfl, rfl, rfl⟩)).1

end OxideSwarm
