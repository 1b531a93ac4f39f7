import Bringup.Charger.Settings

/-! Looking up the properties of a board description. Both readers find the first property of a name
in the first node of a path, and nothing that comes after it makes a difference. -/
namespace Bringup

namespace Config

/-- The first entry of a list that meets a condition. -/
def IsFirst {α : Type} (meets : α → Prop) (a : α) (entries : List α) : Prop :=
  ∃ before after, entries = before ++ a :: after ∧ meets a ∧ ∀ b ∈ before, ¬ meets b

theorem find?_eq_some_iff_isFirst {α : Type} {key : α → String} {wanted : String} {a : α}
    {entries : List α} :
    entries.find? (key · == wanted) = some a ↔ IsFirst (key · = wanted) a entries := by
  rw [List.find?_eq_some_iff_append, IsFirst]
  constructor
  · rintro ⟨meets, before, after, split, others⟩
    exact ⟨before, after, split, by simpa using meets, fun b hb => by simpa using others b hb⟩
  · rintro ⟨before, after, split, meets, others⟩
    exact ⟨by simpa using meets, before, after, split, fun b hb => by simpa using others b hb⟩

theorem find?_eq_none_iff_forall {α : Type} {key : α → String} {wanted : String}
    {entries : List α} :
    entries.find? (key · == wanted) = none ↔ ∀ b ∈ entries, key b ≠ wanted := by
  simp [List.find?_eq_none]

/-! ## Values -/

namespace Value

/-- As an integer a value is its first cell, with the same bits. -/
theorem int?_eq_head (v : Value) : v.int? = v.words.head?.map UInt32.toInt32 := by
  cases v with
  | int n => simp [int?, words]
  | cells words => rfl

theorem copyTo_of_ne_nil {buffer : List UInt32} (room : buffer ≠ []) (v : Value) :
    v.copyTo buffer = (some (min v.words.length buffer.length),
      v.words.take (min v.words.length buffer.length) ++
        buffer.drop (min v.words.length buffer.length)) := by
  cases v with
  | cells words => rfl
  | int n =>
    cases buffer with
    | nil => exact absurd rfl room
    | cons word buffer => rfl

/-- Overwriting the front of a buffer leaves the rest of it. -/
structure Overwrites (words buffer filled : List UInt32) (n : Nat) : Prop where
  count : n = min words.length buffer.length
  length : filled.length = buffer.length
  front : ∀ i < n, filled[i]? = words[i]?
  rest : ∀ i, n ≤ i → filled[i]? = buffer[i]?

theorem overwrites (words buffer : List UInt32) :
    Overwrites words buffer (words.take (min words.length buffer.length) ++
      buffer.drop (min words.length buffer.length)) (min words.length buffer.length) where
  count := rfl
  length := by
    rw [List.length_append, List.length_take, List.length_drop]
    omega
  front := by
    intro i hi
    rw [List.getElem?_append_left (by rw [List.length_take]; omega), List.getElem?_take_of_lt hi]
  rest := by
    intro i hi
    have taken : (words.take (min words.length buffer.length)).length =
        min words.length buffer.length := by
      rw [List.length_take]
      omega
    rw [List.getElem?_append_right (by omega), List.getElem?_drop, taken]
    congr 1
    omega

/-- A buffer that is not empty has room for the first cell, if there is one. -/
theorem Overwrites.head_iff {words buffer filled : List UInt32} {n : Nat}
    (h : Overwrites words buffer filled n) (room : buffer ≠ []) (cell : UInt32) :
    words.head? = some cell ↔ 1 ≤ n ∧ filled[0]? = some cell := by
  have space : 0 < buffer.length := List.length_pos_iff.mpr room
  have count := h.count
  rw [List.head?_eq_getElem?]
  constructor
  · intro first
    have present : 0 < words.length := (List.getElem?_eq_some_iff.mp first).1
    exact ⟨by omega, by rw [h.front 0 (by omega), first]⟩
  · rintro ⟨some_copied, first⟩
    rw [← h.front 0 some_copied, first]

end Value

namespace Table

/-! ## First match -/

/-- What the table has under a path for a name: the value of the first such property in the first
such node. -/
def Has (t : Table) (path name : String) (v : Value) : Prop :=
  ∃ node property, IsFirst (·.path = path) node t.nodes ∧
    IsFirst (·.name = name) property node.properties ∧ property.value = v

/-- There is no such node, or the first one has no such property. -/
def Lacks (t : Table) (path name : String) : Prop :=
  (∀ node ∈ t.nodes, node.path ≠ path) ∨
  ∃ node, IsFirst (·.path = path) node t.nodes ∧ ∀ property ∈ node.properties, property.name ≠ name

variable {s t : Table} {path name : String}

theorem find?_eq_some_iff_has {v : Value} : t.find? path name = some v ↔ t.Has path name v := by
  simp only [find?, Has, Option.bind_eq_bind, Option.bind_eq_some_iff, Option.pure_def,
    Option.some.injEq, find?_eq_some_iff_isFirst]
  constructor
  · rintro ⟨node, first, property, named, value⟩
    exact ⟨node, property, first, named, value⟩
  · rintro ⟨node, property, first, named, value⟩
    exact ⟨node, first, property, named, value⟩

theorem find?_eq_none_iff_lacks : t.find? path name = none ↔ t.Lacks path name := by
  unfold find? Lacks
  cases found : t.nodes.find? (·.path == path) with
  | none =>
    have absent := find?_eq_none_iff_forall.mp found
    constructor
    · intro
      exact .inl absent
    · intro
      rfl
  | some node =>
    have first := find?_eq_some_iff_isFirst.mp found
    have unnamed : (node.properties.find? (·.name == name) = none) ↔
        ∀ property ∈ node.properties, property.name ≠ name := find?_eq_none_iff_forall
    simp only [Option.bind_eq_bind, Option.bind_some, Option.bind_eq_none_iff, Option.pure_def]
    constructor
    · intro missing
      refine .inr ⟨node, first, unnamed.mp ?_⟩
      cases named : node.properties.find? (·.name == name) with
      | none => rfl
      | some property => cases missing property named
    · rintro (absent | ⟨other, first', missing⟩)
      · exact absurd (find?_eq_none_iff_forall.mpr absent) (by simp [found])
      · have same := find?_eq_some_iff_isFirst.mpr first'
        rw [found] at same
        obtain rfl := Option.some.inj same
        rw [unnamed.mpr missing]
        exact fun _ => nofun

/-! ## The two readers -/

/-- Both readers go by the first match, and an integer is read where a cell is copied. -/
structure Reads (t : Table) (path name : String) (buffer : List UInt32) : Prop where
  missing : (t.fill path name buffer).1 = none ↔ t.Lacks path name
  untouched : t.Lacks path name → (t.fill path name buffer).2 = buffer
  copied : ∀ v, t.Has path name v → ∃ n, (t.fill path name buffer).1 = some n ∧
    Value.Overwrites v.words buffer (t.fill path name buffer).2 n
  first : ∀ x, t.int? path name = some x ↔ ∃ n cell, (t.fill path name buffer).1 = some n ∧
    1 ≤ n ∧ (t.fill path name buffer).2[0]? = some cell ∧ x = cell.toInt32

theorem fill_of_lacks (h : t.Lacks path name) (buffer : List UInt32) :
    t.fill path name buffer = (none, buffer) := by
  rw [fill, find?_eq_none_iff_lacks.mpr h]

theorem fill_of_has {v : Value} (h : t.Has path name v) {buffer : List UInt32}
    (room : buffer ≠ []) :
    t.fill path name buffer = (some (min v.words.length buffer.length),
      v.words.take (min v.words.length buffer.length) ++
        buffer.drop (min v.words.length buffer.length)) := by
  rw [fill, find?_eq_some_iff_has.mpr h]
  exact Value.copyTo_of_ne_nil room v

theorem int?_of_has {v : Value} (h : t.Has path name v) :
    t.int? path name = v.words.head?.map UInt32.toInt32 := by
  rw [int?, find?_eq_some_iff_has.mpr h, Option.bind_some, v.int?_eq_head]

theorem reads_of_lacks (h : t.Lacks path name) (buffer : List UInt32) :
    t.Reads path name buffer := by
  have none_found := find?_eq_none_iff_lacks.mpr h
  have none_read : t.int? path name = none := by
    rw [int?, none_found]
    rfl
  have filled := fill_of_lacks h buffer
  constructor
  · simp [filled, h]
  · simp [filled]
  · intro v has
    rw [← find?_eq_some_iff_has, none_found] at has
    cases has
  · simp [filled, none_read]

theorem reads_of_has {v : Value} (h : t.Has path name v) {buffer : List UInt32}
    (room : buffer ≠ []) : t.Reads path name buffer := by
  have found := find?_eq_some_iff_has.mpr h
  have filled := fill_of_has h room
  have copied := Value.overwrites v.words buffer
  constructor
  · simp [filled, ← find?_eq_none_iff_lacks, found]
  · simp [← find?_eq_none_iff_lacks, found]
  · intro v' has
    rw [← find?_eq_some_iff_has, found] at has
    obtain rfl := Option.some.inj has
    rw [filled]
    exact ⟨_, rfl, copied⟩
  · intro x
    rw [int?_of_has h, filled, Option.map_eq_some_iff]
    constructor
    · rintro ⟨cell, head, rfl⟩
      obtain ⟨one, first⟩ := (copied.head_iff room cell).mp head
      exact ⟨_, cell, rfl, one, first, rfl⟩
    · rintro ⟨n, cell, count, one, first, rfl⟩
      obtain rfl := Option.some.inj count
      exact ⟨cell, (copied.head_iff room cell).mpr ⟨one, first⟩, rfl⟩

theorem reads (t : Table) (path name : String) {buffer : List UInt32} (room : buffer ≠ []) :
    t.Reads path name buffer := by
  cases found : t.find? path name with
  | none => exact reads_of_lacks (find?_eq_none_iff_lacks.mp found) buffer
  | some v => exact reads_of_has (find?_eq_some_iff_has.mp found) room

/-! ## Tables with more in them -/

/-- Nodes were put after all others, or properties after the others of their node. -/
inductive Extends : Table → Table → Prop
  | same (t : Table) : Extends t t
  | nodes {s : Table} {nodes : List Node} (h : Extends s ⟨nodes⟩) (more : List Node) :
      Extends s ⟨nodes ++ more⟩
  | properties {s : Table} {before after : List Node} {path : String} {properties : List Property}
      (h : Extends s ⟨before ++ ⟨path, properties⟩ :: after⟩) (more : List Property) :
      Extends s ⟨before ++ ⟨path, properties ++ more⟩ :: after⟩

theorem find?_of_extends {v : Value} (h : s.Extends t) (found : s.find? path name = some v) :
    t.find? path name = some v := by
  induction h with
  | same => exact found
  | nodes h more ih =>
    simp only [find?, Option.bind_eq_bind, Option.bind_eq_some_iff] at ih ⊢
    obtain ⟨node, first, rest⟩ := ih
    exact ⟨node, by rw [List.find?_append, first]; rfl, rest⟩
  | @properties before after path' properties h more ih =>
    simp only [find?, List.find?_append, Option.bind_eq_bind] at ih ⊢
    cases earlier : before.find? (·.path == path) with
    | some node => simpa [earlier] using ih
    | none =>
      simp only [earlier, Option.none_or, List.find?_cons] at ih ⊢
      by_cases same : (path' == path) = true
      · simp only [same, Option.bind_some, Option.bind_eq_some_iff] at ih ⊢
        obtain ⟨property, named, value⟩ := ih
        exact ⟨property, by rw [List.find?_append, named]; rfl, value⟩
      · simpa [same] using ih

theorem hasNode_of_extends (h : s.Extends t) (found : s.hasNode path = true) :
    t.hasNode path = true := by
  induction h with
  | same => exact found
  | nodes h more ih => simp_all [hasNode]
  | properties h more ih => simpa [hasNode] using ih

/-- What was found in the one table is found, and read, in the other. -/
structure Agrees (s t : Table) (path name : String) : Prop where
  node : s.hasNode path = true → t.hasNode path = true
  value : ∀ v, s.Has path name v → t.Has path name v
  int : ∀ v, s.Has path name v → t.int? path name = s.int? path name
  cells : ∀ v, s.Has path name v → ∀ buffer, t.fill path name buffer = s.fill path name buffer

theorem agrees_of_extends (h : s.Extends t) (path name : String) : s.Agrees t path name := by
  have kept {v : Value} (has : s.Has path name v) :
      s.find? path name = some v ∧ t.find? path name = some v := by
    have found := find?_eq_some_iff_has.mpr has
    exact ⟨found, find?_of_extends h found⟩
  constructor
  · exact hasNode_of_extends h
  · intro v has
    exact find?_eq_some_iff_has.mp (kept has).2
  · intro v has
    rw [int?, int?, (kept has).1, (kept has).2]
  · intro v has buffer
    rw [fill, fill, (kept has).1, (kept has).2]

end Table

end Config

/-! ## The curve of the battery -/

namespace Charger

open Config (Table)

/-- The gauge has the low bytes of the first cells, as far as it has room. -/
structure ReadsCurve (t : Table) : Prop where
  missing : t.Lacks node "chg,ocvreg" → (Settings.ofTable t).curve = none
  bytes : ∀ v, t.Has node "chg,ocvreg" v → ∃ curve, (Settings.ofTable t).curve = some curve ∧
    curve.bytes = (v.words.take (min v.words.length 32)).map UInt32.toUInt8

theorem curve_ofTable (t : Table) : (Settings.ofTable t).curve =
    (t.cells? node "chg,ocvreg" (List.replicate Curve.size 0)).map fun (count, words) =>
      Curve.ofCells (words.take count) := rfl

/-- The cells behind those that were copied are not taken. -/
theorem bytes_ofCells (words buffer : List UInt32) (n : Nat) (short : n ≤ 32)
    (many : n ≤ words.length) :
    (Curve.ofCells ((words.take n ++ buffer).take n)).bytes =
      (words.take n).map UInt32.toUInt8 := by
  have taken : (words.take n).length = n := by
    rw [List.length_take]
    omega
  rw [List.take_left' taken]
  change ((words.take n).take 32).map UInt32.toUInt8 = _
  rw [List.take_take, Nat.min_eq_right short]

theorem readsCurve (t : Table) : ReadsCurve t := by
  constructor
  · intro lacks
    rw [curve_ofTable, Table.cells?, Table.fill_of_lacks lacks]
    rfl
  · intro v has
    have room : List.replicate Curve.size (0 : UInt32) ≠ [] := nofun
    have filled := Table.fill_of_has has room
    rw [List.length_replicate] at filled
    rw [curve_ofTable, Table.cells?, filled]
    exact ⟨_, rfl, bytes_ofCells _ _ _ (Nat.min_le_right _ _) (Nat.min_le_left _ _)⟩

end Charger

/-- Of a caller's buffer the front is overwritten with the first cells of the first match, and
without a match nothing is. The first of the cells is also what is read as an integer. What comes
after all that was there before changes nothing that was found, and the curve of the battery is the
low bytes of as many cells as the gauge has room for. -/
theorem first_match_read :
    (∀ (t : Config.Table) (path name : String) (buffer : List UInt32), buffer ≠ [] →
      t.Reads path name buffer) ∧
    (∀ s t : Config.Table, s.Extends t → ∀ path name, s.Agrees t path name) ∧
    ∀ t : Config.Table, Charger.ReadsCurve t := by
  refine ⟨?_, ?_, Charger.readsCurve⟩
  · intro t path name buffer room
    exact t.reads path name room
  · intro s t more path name
    exact Config.Table.agrees_of_extends more path name

/-- A property shadowed by one of its name, and one by a node of its path. -/
theorem shadowed_properties_passed_over :
    let curve : Config.Property := ⟨"chg,ocvreg", .cells [0x1FF, 0x80000000]⟩
    let shadowed : Config.Property := ⟨"chg,ocvreg", .int 7⟩
    let s : Config.Table := ⟨[⟨"init-charger", [curve]⟩]⟩
    let t : Config.Table := ⟨[⟨"init-charger", [curve] ++ [shadowed]⟩] ++
      [⟨"init-charger", [⟨"chg,batcap", .int 4000⟩]⟩]⟩
    s.Extends t ∧ t.Reads "init-charger" "chg,ocvreg" [5, 6, 7] ∧
    t.fill "init-charger" "chg,ocvreg" [5, 6, 7] = (some 2, [0x1FF, 0x80000000, 7]) ∧
    t.int? "init-charger" "chg,ocvreg" = s.int? "init-charger" "chg,ocvreg" ∧
    t.Lacks "init-charger" "chg,batcap" ∧
    ∃ c, (Charger.Settings.ofTable t).curve = some c ∧ c.bytes = [0xFF, 0x00] := by
  intro curve shadowed s t
  have longer : s.Extends ⟨[] ++ ⟨"init-charger", [curve] ++ [shadowed]⟩ :: []⟩ :=
    .properties (.same s) [shadowed]
  have more : s.Extends t := .nodes longer _
  have has : s.Has "init-charger" "chg,ocvreg" (.cells [0x1FF, 0x80000000]) :=
    Config.Table.find?_eq_some_iff_has.mp (by decide +kernel)
  have lacks : t.Lacks "init-charger" "chg,batcap" :=
    Config.Table.find?_eq_none_iff_lacks.mp (by decide +kernel)
  obtain ⟨reads, agrees, curves⟩ := first_match_read
  have same := agrees s t more "init-charger" "chg,ocvreg"
  exact ⟨more, reads t _ _ [5, 6, 7] nofun, by decide +kernel, same.int _ has, lacks,
    (curves t).bytes _ (same.value _ has)⟩

end Bringup
