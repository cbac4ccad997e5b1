import Mathlib.Data.List.Basic
import Mathlib.Data.List.Forall2

/-! Cells of a grid in one list, row by row, as nested loops over rows and columns fill
it. The loops may stop at a cell; where they do not, the list has every cell at its index. -/
namespace Libnmo.Lib.Grid
variable {ε α β : Type} {width height : Nat}

def cells (width height : Nat) (cell : Nat → Nat → α) : List α :=
  (List.range height).flatMap fun y => (List.range width).map fun x => cell x y

/-- The loops with a body that may stop. -/
def cellsM (width height : Nat) (cell : Nat → Nat → Except ε α) : Except ε (List α) := do
  let rows ← (List.range height).mapM fun y => (List.range width).mapM fun x => cell x y
  pure rows.flatten

/-- Each index has its cell. -/
def Tiles (width height : Nat) (cell : Nat → Nat → α → Prop) (values : List α) : Prop :=
  values.length = width * height ∧
    ∀ x y, x < width → y < height → ∃ value, values[y * width + x]? = some value ∧ cell x y value

/-- The columns and rows of the mirrored picture are those of the picture. -/
theorem mirror_lt {y : Nat} (row : y < height) : height - 1 - y < height ∧ height - 1 - (height - 1 - y) = y := by
  omega

theorem tiles_flatten {cell : Nat → Nat → α → Prop} {rows : List (List α)} (count : rows.length = height)
    (each : ∀ y row, rows[y]? = some row → row.length = width ∧ ∀ x value, row[x]? = some value → cell x y value) :
    Tiles width height cell rows.flatten := by
  induction rows generalizing cell height with
  | nil =>
    obtain rfl : 0 = height := count
    exact ⟨rfl,fun x y _ row => absurd row (Nat.not_lt_zero y)⟩
  | cons first rest ih =>
    obtain rfl : rest.length + 1 = height := count
    obtain ⟨length,here⟩ := each 0 first rfl
    obtain ⟨total,there⟩ : Tiles width rest.length (fun x y => cell x (y + 1)) rest.flatten :=
      ih rfl fun y row found => each (y + 1) row found
    constructor
    · rw [List.flatten_cons,List.length_append,length,total,Nat.mul_succ,Nat.add_comm]
    · intro x y column row
      rw [List.flatten_cons]
      cases y with
      | zero =>
        obtain ⟨value,found⟩ : ∃ value, first[x]? = some value := ⟨_,List.getElem?_eq_getElem (length.symm ▸ column)⟩
        refine ⟨value,?_,here x value found⟩
        rw [Nat.zero_mul,Nat.zero_add,List.getElem?_append_left (length.symm ▸ column)]
        exact found
      | succ y =>
        obtain ⟨value,found,fits⟩ := there x y column (Nat.lt_of_succ_lt_succ row)
        refine ⟨value,?_,fits⟩
        have index : (y + 1) * width + x - first.length = y * width + x := by
          rw [length,Nat.succ_mul]
          omega
        rw [List.getElem?_append_right (by rw [length,Nat.succ_mul]; omega),index]
        exact found

/-- Values that go along with those of the cells. -/
theorem Tiles.along {cell : Nat → Nat → α → Prop} {other : Nat → Nat → β → Prop} {relation : α → β → Prop}
    {values : List α} {others : List β} (holds : Tiles width height cell values) (all : List.Forall₂ relation values others)
    (step : ∀ x y value value', cell x y value → relation value value' → other x y value') :
    Tiles width height other others := by
  refine ⟨all.length_eq.symm.trans holds.1,fun x y column row => ?_⟩
  obtain ⟨value,found,fits⟩ := holds.2 x y column row
  obtain ⟨bound,same⟩ := List.getElem?_eq_some_iff.mp found
  have bound' : y * width + x < others.length := all.length_eq ▸ bound
  refine ⟨_,List.getElem?_eq_getElem bound',step x y value _ fits ?_⟩
  rw [← same]
  exact List.forall₂_iff_get.mp all |>.2 _ bound bound'

theorem range_entry {count i j : Nat} (found : (List.range count)[i]? = some j) : j = i := by
  obtain ⟨bound,same⟩ := List.getElem?_eq_some_iff.mp found
  rw [List.getElem_range] at same
  exact same.symm

theorem cells_tiles (cell : Nat → Nat → α) : Tiles width height (fun x y value => value = cell x y) (cells width height cell) := by
  refine tiles_flatten (by rw [List.length_map,List.length_range]) fun y row found => ?_
  rw [List.getElem?_map,Option.map_eq_some_iff] at found
  obtain ⟨y',there,rfl⟩ := found
  obtain rfl := range_entry there
  refine ⟨by rw [List.length_map,List.length_range],fun x value found => ?_⟩
  rw [List.getElem?_map,Option.map_eq_some_iff] at found
  obtain ⟨x',there,rfl⟩ := found
  rw [range_entry there]

section Stops
variable {body : β → Except ε α} {inputs : List β}

/-- A loop that did not stop has the value of the body at each of its inputs. -/
theorem mapM_success {values : List α} (ok : inputs.mapM body = .ok values) :
    values.length = inputs.length ∧
      ∀ (i : Nat) input value, inputs[i]? = some input → values[i]? = some value → body input = .ok value := by
  induction inputs generalizing values with
  | nil =>
    obtain rfl := Except.ok.inj ok
    exact ⟨rfl,fun _ _ _ => nofun⟩
  | cons first rest ih =>
    rw [List.mapM_cons] at ok
    cases here : body first with
    | error e =>
      rw [here] at ok
      cases ok
    | ok value =>
      cases there : rest.mapM body with
      | error e =>
        rw [here,there] at ok
        cases ok
      | ok others =>
        rw [here,there] at ok
        obtain rfl := Except.ok.inj ok
        obtain ⟨length,each⟩ := ih there
        refine ⟨congrArg (· + 1) length,fun i => ?_⟩
        cases i with
        | zero =>
          intro input found same same'
          obtain rfl := Option.some.inj same
          obtain rfl := Option.some.inj same'
          exact here
        | succ i => exact each i

theorem mapM_full (all : ∀ input ∈ inputs, ∃ value, body input = .ok value) : ∃ values, inputs.mapM body = .ok values := by
  induction inputs with
  | nil => exact ⟨[],rfl⟩
  | cons first rest ih =>
    rw [List.forall_mem_cons] at all
    obtain ⟨value,here⟩ := all.1
    obtain ⟨values,there⟩ := ih all.2
    refine ⟨value :: values,?_⟩
    rw [List.mapM_cons,here,there]
    rfl

theorem cellsM_success {cell : Nat → Nat → Except ε α} {values : List α} (ok : cellsM width height cell = .ok values) :
    Tiles width height (fun x y value => cell x y = .ok value) values := by
  unfold cellsM at ok
  cases ran : (List.range height).mapM fun y => (List.range width).mapM fun x => cell x y with
  | error e =>
    rw [ran] at ok
    cases ok
  | ok rows =>
    rw [ran] at ok
    obtain rfl := Except.ok.inj ok
    obtain ⟨count,each⟩ := mapM_success ran
    rw [List.length_range] at count
    refine tiles_flatten count fun y row found => ?_
    have bound : y < height := count ▸ (List.getElem?_eq_some_iff.mp found).1
    obtain ⟨length,entries⟩ := mapM_success (each y y row (List.getElem?_range bound) found)
    rw [List.length_range] at length
    refine ⟨length,fun x value there => ?_⟩
    have column : x < width := length ▸ (List.getElem?_eq_some_iff.mp there).1
    exact entries x x value (List.getElem?_range column) there

theorem cellsM_full {cell : Nat → Nat → Except ε α} (all : ∀ x y, x < width → y < height → ∃ value, cell x y = .ok value) :
    ∃ values, cellsM width height cell = .ok values := by
  obtain ⟨rows,ran⟩ : ∃ rows, ((List.range height).mapM fun y => (List.range width).mapM fun x => cell x y) = .ok rows :=
    mapM_full fun y row => mapM_full fun x column => all x y (List.mem_range.mp column) (List.mem_range.mp row)
  refine ⟨rows.flatten,?_⟩
  unfold cellsM
  rw [ran]
  rfl

end Stops

end Libnmo.Lib.Grid
