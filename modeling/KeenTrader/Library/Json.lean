import Mathlib

/-!
# JSON values

The values of a parsed JSON text, and the accessors through which a program reads them. An
object lists its members; a key that is looked up finds the first member of that name. An
accessor that does not find what it asks for throws.
-/

namespace Json

/-- A parsed JSON value. Numbers without a fraction or an exponent are integers. -/
inductive Value where
  | null
  | bool (b : Bool)
  | int (n : ℤ)
  | float (q : ℚ)
  | string (s : String)
  | array (elements : List Value)
  | object (members : List (String × Value))

/-- A failed access: a value of another type throws; a key that a constant object lacks, or a
position that a constant array lacks, has no defined result, and whatever reads it ends there. -/
inductive Error where
  | type
  | key
  deriving DecidableEq, Repr

namespace Value

/-- The member of an object, if the value is an object that has it. -/
def get? : Value → String → Option Value
  | .object members, key => members.lookup key
  | _, _ => none

def contains (v : Value) (key : String) : Bool := (v.get? key).isSome

/-- Subscripting a constant value. -/
def get (v : Value) (key : String) : Except Error Value :=
  match v with
  | .object members =>
    match members.lookup key with
    | some m => .ok m
    | none => .error .key
  | _ => .error .type

/-- Subscripting a constant value by a position. -/
def element (v : Value) (position : ℕ) : Except Error Value :=
  match v with
  | .array elements =>
    match elements[position]? with
    | some m => .ok m
    | none => .error .key
  | _ => .error .type

def string? : Value → Except Error String
  | .string s => .ok s
  | _ => .error .type

/-- Conversion to a 32-bit integer, which takes any number and any truth value: integers wrap
around, and `truncate` converts the other numbers. -/
def int? (truncate : ℚ → ℤ) : Value → Except Error ℤ
  | .int n => .ok (n.bmod (2 ^ 32))
  | .float q => .ok (truncate q)
  | .bool b => .ok (if b then 1 else 0)
  | _ => .error .type

/-- Conversion to a 64-bit integer, which takes any number. -/
def long? (truncate : ℚ → ℤ) : Value → Except Error ℤ
  | .int n => .ok n
  | .float q => .ok (truncate q)
  | _ => .error .type

/-- Conversion to a floating-point number, which takes any number. -/
def number? : Value → Except Error ℚ
  | .int n => .ok n
  | .float q => .ok q
  | _ => .error .type

def bool? : Value → Except Error Bool
  | .bool b => .ok b
  | _ => .error .type

/-- The member of an object as `read` reads it, or a default where the object lacks it. -/
def valueOr {α : Type} (read : Value → Except Error α) (v : Value) (key : String) (default : α) :
    Except Error α :=
  match v with
  | .object members =>
    match members.lookup key with
    | some m => read m
    | none => .ok default
  | _ => .error .type

def stringOr (v : Value) (key default : String) : Except Error String :=
  v.valueOr string? key default

/-- What a loop over the value visits. -/
def items : Value → List Value
  | .array elements => elements
  | .object members => members.map Prod.snd
  | .null => []
  | v => [v]

def isEmpty (v : Value) : Bool := v.items.isEmpty

/-- The keys with which the elements are visited: the names of an object's members, the positions
in an array. -/
def keys : Value → List String
  | .array elements => (List.range elements.length).map toString
  | .object members => members.map Prod.fst
  | .null => []
  | _ => [""]

def isNull : Value → Bool
  | .null => true
  | _ => false

/-- Comparison with a text. -/
def isString (v : Value) (text : String) : Bool :=
  match v with
  | .string s => s == text
  | _ => false

/-! ## Writing -/

/-- The members after an assignment to the first one of that name. -/
def assign (key : String) (m : Value) : List (String × Value) → List (String × Value)
  | [] => [(key, m)]
  | (k, v) :: rest => if k = key then (key, m) :: rest else (k, v) :: assign key m rest

/-- The values whose members can be assigned to. -/
def writable : Value → Bool
  | .object _ | .null => true
  | _ => false

/-- Assignment to a subscript, which takes an object or a null value. -/
def set (v : Value) (key : String) (m : Value) : Except Error Value :=
  match v with
  | .object members => .ok (.object (assign key m members))
  | .null => .ok (.object [(key, m)])
  | _ => .error .type

/-- Subscripting a value that can be written to: a member that is missing is made, as null. -/
def subscript (v : Value) (key : String) : Except Error (Value × Value) :=
  match v.get? key with
  | some m => .ok (v, m)
  | none => (v.set key .null).map (·, .null)

def erase (v : Value) (key : String) : Value :=
  match v with
  | .object members => .object (members.filter (·.1 ≠ key))
  | v => v

/-- The value with another one as the element at a position. -/
def setAt (v : Value) (position : ℕ) (m : Value) : Value :=
  match v with
  | .array elements => .array (elements.set position m)
  | .object members => .object (members.modify position fun x => (x.1, m))
  | v => v

/-- The value that is read back from its text: an object comes with its members in the order of
their names. -/
def reread : Value → Value
  | .object members => .object (members.insertionSort (·.1 ≤ ·.1))
  | v => v

/-! ## The text of a value -/

/-- A character inside a quoted text. -/
def escape (c : Char) : String :=
  if c = '"' then "\\\""
  else if c = '\\' then "\\\\"
  else if c = '\x08' then "\\b"
  else if c = '\x0c' then "\\f"
  else if c = '\n' then "\\n"
  else if c = '\r' then "\\r"
  else if c = '\t' then "\\t"
  else if c.toNat < 32 then
    "\\u00" ++ (if c.toNat < 16 then "0" else "1") ++ (Nat.digitChar (c.toNat % 16)).toString
  else c.toString

def quote (s : String) : String := "\"" ++ String.join (s.toList.map escape) ++ "\""

section Dump
variable (printFloat : ℚ → String)

mutual

/-- The text of a value, without blanks. -/
def dump : Value → String
  | .null => "null"
  | .bool b => if b then "true" else "false"
  | .int n => toString n
  | .float q => printFloat q
  | .string s => quote s
  | .array elements => "[" ++ ",".intercalate (dumpElements elements) ++ "]"
  | .object members => "\x7b" ++ ",".intercalate (dumpMembers members) ++ "\x7d"

def dumpElements : List Value → List String
  | [] => []
  | v :: vs => dump v :: dumpElements vs

def dumpMembers : List (String × Value) → List String
  | [] => []
  | (key, v) :: rest => (quote key ++ ":" ++ dump v) :: dumpMembers rest

end

end Dump

/-! ## Reading members -/

/-- The member of a value, which every accessor reads the same way. -/
theorem get_of_get? {v m : Value} {key : String} (found : v.get? key = some m) :
    v.get key = .ok m := by
  cases v <;> simp_all [get?, get]

theorem getString_of_get? {v : Value} {key s : String} (found : v.get? key = some (.string s)) :
    v.get key >>= string? = .ok s := by
  rw [get_of_get? found]
  rfl

theorem map_get_of_get? {α : Type} {f : Value → α} {v m : Value} {key : String}
    (found : v.get? key = some m) : f <$> v.get key = .ok (f m) := by
  rw [get_of_get? found]
  rfl

theorem isNull_of_get? {v m : Value} {key : String} (found : v.get? key = some m) :
    v.isNull = false := by
  cases v <;> simp_all [get?, isNull]

theorem valueOr_of_get? {α : Type} {read : Value → Except Error α} {v m : Value} {key : String}
    {default : α} (found : v.get? key = some m) : v.valueOr read key default = read m := by
  cases v <;> simp_all [get?, valueOr]

theorem stringOr_of_get? {v : Value} {key s default : String}
    (found : v.get? key = some (.string s)) : v.stringOr key default = .ok s := by
  rw [stringOr, valueOr_of_get? found]
  rfl

/-- A member is read as a text exactly where it is one. -/
theorem getString_cases (v : Value) (key : String) :
    (∃ s, v.get? key = some (.string s) ∧ v.get key >>= string? = .ok s) ∨
    ((∀ s, v.get? key ≠ some (.string s)) ∧ ∃ e, v.get key >>= string? = .error e) := by
  cases found : v.get? key with
  | none => cases v <;> simp_all [get?, get, bind, Except.bind, -List.lookup_eq_none_iff]
  | some m => rw [get_of_get? found]; cases m <;> simp [string?, bind, Except.bind]

/-- A member that is read with a default is a text or is not there. -/
theorem stringOr_cases (v : Value) (key default : String) :
    (∃ s, v.get? key = some (.string s) ∧ v.stringOr key default = .ok s) ∨
    ((∀ s, v.get? key ≠ some (.string s)) ∧
      (v.stringOr key default = .ok default ∨ ∃ e, v.stringOr key default = .error e)) := by
  cases found : v.get? key with
  | none => cases v <;> simp_all [get?, stringOr, valueOr, -List.lookup_eq_none_iff]
  | some m => rw [stringOr, valueOr_of_get? found]; cases m <;> simp [string?]

/-! ## Reading what has been written -/

theorem lookup_assign (key k : String) (m : Value) (members : List (String × Value)) :
    (assign key m members).lookup k = if key = k then some m else members.lookup k := by
  induction members with
  | nil =>
    rw [assign, List.lookup_cons, List.lookup_nil]
    by_cases same : key = k <;> grind
  | cons x rest ih =>
    obtain ⟨name, v⟩ := x
    rw [assign, List.lookup_cons]
    split
    · rw [List.lookup_cons]
      grind
    · rw [List.lookup_cons, ih]
      grind

theorem get?_set {v w m : Value} {key : String} (done : v.set key m = .ok w) (k : String) :
    w.get? k = if key = k then some m else v.get? k := by
  cases v <;> simp only [set, Except.ok.injEq, reduceCtorEq] at done
  case object members =>
    subst done
    exact lookup_assign key k m members
  case null =>
    subst done
    exact lookup_assign key k m []

theorem writable_set {v w m : Value} {key : String} (done : v.set key m = .ok w) :
    w.writable = true := by
  cases v <;> simp only [set, Except.ok.injEq, reduceCtorEq] at done <;> subst done <;> rfl

theorem exists_set {v : Value} (writable : v.writable = true) (key : String) (m : Value) :
    ∃ w, v.set key m = .ok w := by
  cases v <;> simp_all [Value.writable, set]

/-- Replacing an element keeps the names of the members. -/
theorem isSome_get?_setAt (v : Value) (position : ℕ) (m : Value) (key : String) :
    ((v.setAt position m).get? key).isSome = (v.get? key).isSome := by
  cases v with
  | object members =>
    simp only [setAt, get?]
    induction members generalizing position with
    | nil => simp
    | cons x rest ih =>
      obtain ⟨name, old⟩ := x
      cases position with
      | zero => simp only [List.modify_zero_cons, List.lookup_cons]; split <;> rfl
      | succ position =>
        simp only [List.modify_succ_cons, List.lookup_cons]
        split
        · rfl
        · exact ih position
  | _ => simp [setAt, get?]

theorem writable_setAt (v : Value) (position : ℕ) (m : Value) :
    (v.setAt position m).writable = v.writable := by
  cases v <;> rfl

theorem writable_erase (v : Value) (key : String) : (v.erase key).writable = v.writable := by
  cases v <;> rfl

theorem get?_erase (v : Value) (key k : String) :
    (v.erase key).get? k = if key = k then none else v.get? k := by
  cases v with
  | object members =>
    simp only [erase, get?]
    induction members with
    | nil => simp
    | cons x rest ih =>
      obtain ⟨name, m⟩ := x
      rw [List.filter_cons, List.lookup_cons]
      grind
  | _ => simp [erase, get?]

theorem erase_of_not_contains {v : Value} {key : String} (absent : v.contains key = false) :
    v.erase key = v := by
  cases v with
  | object members =>
    have missing : members.lookup key = none := by simpa [contains, get?] using absent
    have others : members.filter (·.1 ≠ key) = members := by
      refine List.filter_eq_self.mpr fun x mem => decide_eq_true fun same => ?_
      have unequal := List.lookup_eq_none_iff.mp missing x mem
      simp [same] at unequal
    simp only [erase, others]
  | _ => rfl

/-! ## Objects with distinct names -/

section Distinct
variable {members : List (String × Value)} {key : String} {m : Value}

theorem mem_of_lookup (found : members.lookup key = some m) : (key, m) ∈ members := by
  obtain ⟨before, after, split, -⟩ := List.lookup_eq_some_iff.mp found
  simp [split]

theorem lookup_of_mem (distinct : (members.map Prod.fst).Nodup) (mem : (key, m) ∈ members) :
    members.lookup key = some m := by
  obtain ⟨before, after, split⟩ := List.append_of_mem mem
  refine List.lookup_eq_some_iff.mpr ⟨before, after, split, fun x earlier => ?_⟩
  rw [split, List.map_append, List.map_cons] at distinct
  have apart := (List.nodup_append.mp distinct).2.2 x.1 (List.mem_map_of_mem earlier) key (by simp)
  simpa using Ne.symm apart

theorem lookup_perm {others : List (String × Value)} (perm : members.Perm others)
    (distinct : (members.map Prod.fst).Nodup) (key : String) :
    members.lookup key = others.lookup key := by
  have distinct' : (others.map Prod.fst).Nodup := (perm.map _).nodup_iff.mp distinct
  refine Option.ext fun m => ⟨fun found => ?_, fun found => ?_⟩
  · exact lookup_of_mem distinct' (perm.mem_iff.mp (mem_of_lookup found))
  · exact lookup_of_mem distinct (perm.mem_iff.mpr (mem_of_lookup found))

/-- Assigning what is there changes nothing. -/
theorem assign_self (found : members.lookup key = some m) : assign key m members = members := by
  induction members with
  | nil => simp at found
  | cons x rest ih =>
    obtain ⟨name, old⟩ := x
    rw [List.lookup_cons] at found
    rw [assign]
    by_cases same : name = key
    · subst same
      obtain rfl : old = m := by simpa using found
      rw [if_pos rfl]
    · have apart : (key == name) = false := by simpa using Ne.symm same
      rw [apart] at found
      rw [if_neg same, ih found]

theorem names_assign (key : String) (m : Value) (members : List (String × Value)) :
    (assign key m members).map Prod.fst =
      if key ∈ members.map Prod.fst then members.map Prod.fst
      else members.map Prod.fst ++ [key] := by
  induction members with
  | nil => rfl
  | cons x rest ih =>
    obtain ⟨name, old⟩ := x
    rw [assign]
    by_cases same : name = key
    · simp [same]
    · rw [if_neg same, List.map_cons, ih]
      by_cases known : key ∈ rest.map Prod.fst
      · simp [known]
      · simp [known, Ne.symm same]

theorem distinct_assign (distinct : (members.map Prod.fst).Nodup) (key : String) (m : Value) :
    ((assign key m members).map Prod.fst).Nodup := by
  rw [names_assign]
  split
  · exact distinct
  · rename_i new
    rw [← List.concat_eq_append]
    exact distinct.concat new

/-- Putting an element back where it is changes nothing. -/
theorem setAt_self {position : ℕ} (found : members[position]? = some (key, m)) :
    (object members).setAt position m = object members := by
  have same : members.modify position (fun x => (x.1, m)) = members := by
    refine List.ext_getElem? fun i => ?_
    rw [List.getElem?_modify]
    split
    · rename_i here
      subst here
      simp [found]
    · simp
  rw [setAt, same]

theorem subscript_of_get? {v m : Value} (found : v.get? key = some m) :
    v.subscript key = .ok (v, m) := by
  rw [subscript, found]

/-- Reading back changes no member. -/
theorem get?_reread (distinct : (members.map Prod.fst).Nodup) (key : String) :
    (object members).reread.get? key = members.lookup key :=
  (lookup_perm (List.perm_insertionSort _ members).symm distinct key).symm

theorem reread_reread (v : Value) : v.reread.reread = v.reread := by
  cases v with
  | object members =>
    have sorted : (members.insertionSort (·.1 ≤ ·.1)).Pairwise (·.1 ≤ ·.1) := by
      have total : Std.Total fun a b : String × Value => a.1 ≤ b.1 := ⟨fun a b => le_total a.1 b.1⟩
      have trans : IsTrans (String × Value) (·.1 ≤ ·.1) := ⟨fun _ _ _ => le_trans⟩
      exact List.pairwise_insertionSort _ members
    simp only [reread, sorted.insertionSort_eq]
  | _ => rfl

end Distinct

end Value

end Json
