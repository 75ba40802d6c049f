import IntroOS.Base.CStr
import Mathlib.Logic.Function.Basic

/-! # Files by name

The regular files that a program creates, writes and removes, as a function of their names.
`fopen(.., "w")` empties the file or creates it, `fwrite` continues it, `unlink` removes it.

Two programs that write different files do not see each other (`appendAll_other`,
`create_other`, `unlink_other`), which is what the runs are put together from.
-/

namespace IntroOS

variable {Name : Type*} [DecidableEq Name]

/-- The content of a file, if there is one of this name. -/
abbrev Disk (Name : Type*) := Name → Option Bytes

namespace Disk

/-- `fopen(name, "w")`. -/
def create (disk : Disk Name) (name : Name) : Disk Name := Function.update disk name (some [])

/-- `fwrite` to the open file. -/
def append (disk : Disk Name) (name : Name) (data : Bytes) : Disk Name :=
  Function.update disk name ((disk name).map (· ++ data))

/-- A number of them. -/
def appendAll (disk : Disk Name) (name : Name) : List Bytes → Disk Name
  | [] => disk
  | data :: rest => appendAll (disk.append name data) name rest

/-- `unlink(name)`: whether there was a file, and the disk without it. -/
def unlink (disk : Disk Name) (name : Name) : Bool × Disk Name :=
  ((disk name).isSome, Function.update disk name none)

variable {disk : Disk Name} {name other : Name}

@[simp] theorem create_self : disk.create name name = some [] := Function.update_self _ _ _

theorem create_other (h : other ≠ name) : disk.create name other = disk other :=
  Function.update_of_ne h _ _

theorem append_other (h : other ≠ name) (data : Bytes) : disk.append name data other = disk other :=
  Function.update_of_ne h _ _

theorem appendAll_other (h : other ≠ name) (chunks : List Bytes) :
    disk.appendAll name chunks other = disk other := by
  induction chunks generalizing disk with
  | nil => rfl
  | cons data rest ih =>
    rw [appendAll, ih, append_other h]

theorem append_self {content : Bytes} (h : disk name = some content) (data : Bytes) :
    disk.append name data name = some (content ++ data) := by
  unfold append
  rw [Function.update_self, h]
  rfl

/-- An open file has what was written, in its order. -/
theorem appendAll_self (chunks : List Bytes) {content : Bytes} (h : disk name = some content) :
    disk.appendAll name chunks name = some (content ++ chunks.flatten) := by
  induction chunks generalizing disk content with
  | nil => rw [appendAll, h, List.flatten_nil, List.append_nil]
  | cons data rest ih =>
    rw [appendAll, ih (append_self h data), List.flatten_cons, List.append_assoc]

@[simp] theorem unlink_self : (disk.unlink name).2 name = none := Function.update_self _ _ _

theorem unlink_other (h : other ≠ name) : (disk.unlink name).2 other = disk other :=
  Function.update_of_ne h _ _

end Disk

end IntroOS
