import Mathlib.Logic.Function.Basic
import Mathlib.Tactic.Common

namespace MockOS.Lib

/-- Files by name, with the position of each open one. -/
@[ext] structure NamedFiles (Name Byte : Type*) where
  files : Name → Option (List Byte)
  position : Name → Nat

namespace NamedFiles

variable {Name Byte : Type*} [DecidableEq Name]

def empty : NamedFiles Name Byte := ⟨fun _ => none, fun _ => 0⟩

def put (store : NamedFiles Name Byte) (name : Name) (bytes : List Byte) : NamedFiles Name Byte :=
  { store with files := Function.update store.files name (some bytes) }

def seek (store : NamedFiles Name Byte) (name : Name) (pos : Nat) : NamedFiles Name Byte :=
  { store with position := Function.update store.position name pos }

/-- A file that is removed is closed. -/
def remove (store : NamedFiles Name Byte) (name : Name) : NamedFiles Name Byte :=
  ⟨Function.update store.files name none, Function.update store.position name 0⟩

def closeAll (store : NamedFiles Name Byte) : NamedFiles Name Byte := { store with position := fun _ => 0 }

variable (store : NamedFiles Name Byte) {name other : Name} (bytes : List Byte) (pos : Nat)

@[simp] theorem files_put_self : (store.put name bytes).files name = some bytes := Function.update_self _ _ _

theorem files_put_of_ne (different : other ≠ name) : (store.put name bytes).files other = store.files other :=
  Function.update_of_ne different _ _

@[simp] theorem position_put : (store.put name bytes).position = store.position := rfl

@[simp] theorem files_seek : (store.seek name pos).files = store.files := rfl

@[simp] theorem position_seek_self : (store.seek name pos).position name = pos := Function.update_self _ _ _

theorem position_seek_of_ne (different : other ≠ name) : (store.seek name pos).position other = store.position other :=
  Function.update_of_ne different _ _

@[simp] theorem files_remove_self : (store.remove name).files name = none := Function.update_self _ _ _

theorem files_remove_of_ne (different : other ≠ name) : (store.remove name).files other = store.files other :=
  Function.update_of_ne different _ _

@[simp] theorem position_remove_self : (store.remove name).position name = 0 := Function.update_self _ _ _

end NamedFiles

end MockOS.Lib
