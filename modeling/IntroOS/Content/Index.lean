import IntroOS.Base.Loop
import IntroOS.Base.Strings

/-! # `content.c` and `simplecache.c`

The index of keys: an array of items that is filled from the rows of a file, sorted, and searched
by bisection. The two files are the same but for `MAX_KEYLEN` and the `lseek` of `content_get`.

* `indexRound`: a round of the loop that reads the rows;
* `getRound`: a round of the loop that looks for a key.

What is in the memory that `malloc` and `realloc` return, the results of `open`, and `qsort` are
parameters.
-/

namespace IntroOS.Content

/-- `item_t`, with the whole memory of `key`. -/
structure Item where
  fildes : Int
  key : Bytes
deriving DecidableEq, Repr

/-- `_itemcmp`. -/
def itemcmp (a b : Item) : Int := strcmp (text a.key) (text b.key)

/-- What ends the program, or is undefined behaviour. -/
inductive Fault where
  /-- `exit` -/
  | exit
  /-- memory outside of the array is used -/
  | outOfBounds
  /-- `capacity *= 2` does not fit an `int` -/
  | overflow
deriving DecidableEq, Repr

/-! ## Loading -/

/-- The separators of `strsep`. -/
def isBlank (b : UInt8) : Bool := b == 32 || b == 9

/-- The loop that reads the rows: what is left of the file, the items so far and the size of the
array. -/
structure Loading where
  stream : Bytes
  items : List Item
  capacity : Nat
deriving DecidableEq, Repr

/-- `key[strlen(key)-1] = '\0'`. -/
def chop (key : Bytes) : Option Bytes :=
  if text key = [] then none else some (key.set ((text key).length - 1) 0)

/-- The key and the path are cut apart: the memory of the key, and the path or NULL. -/
def splitRow (key : Bytes) : Bytes × Option Bytes :=
  let (key, ptr, _) := strsep isBlank key (some 0)
  let (key, _, path) := strsep isBlank key ptr
  (key, path.map fun p => text (key.drop p))

/-- `open(path, O_RDONLY)`, as the `n`-th one; NULL is no path. -/
def openPath (opens : Nat → Bytes → Int) (n : Nat) : Option Bytes → Int
  | none => -1
  | some path => opens n path

/-- A round of `while (fgets(..))`. `junk n` is in the memory of the `n`-th key. -/
def indexRound (maxKeylen : Nat) (junk : Nat → Bytes) (opens : Nat → Bytes → Int) (s : Loading) :
    Loading ⊕ Except Fault (List Item) :=
  let nitems := s.items.length
  if ¬ nitems < s.capacity then .inr (.error .outOfBounds)
  else
    match fgets (junk nitems) maxKeylen s.stream with
    | none => .inr (.ok s.items)
    | some (key, stream) =>
      match chop key with
      -- a row that begins with a NUL: `key[-1]`
      | none => .inr (.error .outOfBounds)
      | some key =>
        let (key, path) := splitRow key
        let fildes := openPath opens nitems path
        if fildes < 0 then .inr (.error .exit)
        else
          let items := s.items ++ [⟨fildes, key⟩]
          -- `realloc`, when the array is full
          if items.length = s.capacity then
            if 2 ^ 31 ≤ s.capacity * 2 then .inr (.error .overflow)
            else .inl ⟨stream, items, s.capacity * 2⟩
          else .inl ⟨stream, items, s.capacity⟩

/-- Before the loop. -/
def Loading.start (file : Bytes) : Loading := ⟨file, [], 16⟩

/-- The function comes to an end with `r`: the sorted items, unless it ends the program. The file
is `none` if it cannot be opened. -/
def IndexInit (maxKeylen : Nat) (qsort : List Item → List Item) (junk : Nat → Bytes)
    (opens : Nat → Bytes → Int) (file : Option Bytes) (r : Except Fault (List Item)) : Prop :=
  match file with
  | none => r = .error .exit
  | some file => ∃ loaded, Returns (indexRound maxKeylen junk opens) (Loading.start file) loaded ∧
      r = loaded.map qsort

/-! ## Looking up -/

/-- A round of `while (lo <= hi)`, which returns the item, or no item. -/
def getRound (items : List Item) (key : Bytes) :
    Int × Int → (Int × Int) ⊕ Except Fault (Option Item)
  | (lo, hi) =>
    if ¬ lo ≤ hi then .inr (.ok none)
    else
      let mid := lo + (hi - lo) / 2
      if mid < 0 then .inr (.error .outOfBounds)
      else
        match items[mid.toNat]? with
        | none => .inr (.error .outOfBounds)
        | some item =>
          let cmp := strcmp key (text item.key)
          if cmp < 0 then .inl (lo, mid - 1)
          else if 0 < cmp then .inl (mid + 1, hi)
          else .inr (.ok (some item))

/-- The search comes to an end, and with `item`. -/
def IndexGet (items : List Item) (key : Bytes) (item : Except Fault (Option Item)) : Prop :=
  Returns (getRound items key) (0, (items.length : Int) - 1) item

/-! ## The two files -/

namespace GfContent

/-- `MAX_KEYLEN` of `content.c`. -/
def maxKeylen : Nat := 256

/-- `content_init`. -/
def ContentInit := IndexInit maxKeylen

/-- `content_get` returns the descriptor, which it has set back to the beginning of its file. -/
def ContentGet (items : List Item) (key : Bytes) (r : Except Fault (Int × List Int)) : Prop :=
  ∃ item, IndexGet items key item ∧ r = item.map fun
    | none => (-1, [])
    | some item => (item.fildes, [item.fildes])

end GfContent

namespace Simplecache

/-- `MAX_KEYLEN` of `simplecache.c`. -/
def maxKeylen : Nat := 1500

/-- `simplecache_init`. -/
def SimplecacheInit := IndexInit maxKeylen

/-- `simplecache_get`. -/
def SimplecacheGet (items : List Item) (key : Bytes) (r : Except Fault Int) : Prop :=
  ∃ item, IndexGet items key item ∧ r = item.map fun
    | none => -1
    | some item => item.fildes

end Simplecache

end IntroOS.Content
