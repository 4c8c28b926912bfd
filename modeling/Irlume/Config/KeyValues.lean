import Irlume.Split.Schema

/-!
# Config files of `key=value` lines

A config file is lines of `key=value`, comments and whatever else an administrator left in it. A writer changes
some keys and keeps every other line: a key that is set takes the place of its first line and its later lines
go, a key that is removed loses all its lines, and a key that has no line yet is added at the end.
-/

namespace Irlume.Config

open Irlume.Lib
open Irlume.Split (breaksALine)

/-- `std::io::ErrorKind`, as far as the callers here tell kinds apart. -/
inductive ErrorKind where
  | notFound
  | invalidInput
  | invalidData
  | other
  deriving DecidableEq

structure IoError where
  kind : ErrorKind
  text : Text
  deriving DecidableEq

def maxConfigKeyBytes : Nat := 1024
def maxConfigValueBytes : Nat := 4096

def configKeyIsSerializable (key : Text) : Bool :=
  key ≠ [] && byteLength key ≤ maxConfigKeyBytes && trim key = key && key.head? ≠ some '#' &&
    !key.contains '=' && !key.any breaksALine

/-- Whether a value reads back as itself after `key=`. Empty is allowed. -/
def configValueIsSerializable (value : Text) : Bool :=
  byteLength value ≤ maxConfigValueBytes && trim value = value && !value.any breaksALine

def keyRefused (path : Text) : Text :=
  "refusing to write " ++ path ++ ": a key must be non-empty, at most " ++
    decimal maxConfigKeyBytes ++ " bytes, without line breaks, control characters, '=' or " ++
    "surrounding whitespace, and must not start with '#'"

def valueRefused (path : Text) : Text :=
  "refusing to write " ++ path ++ ": a value must be at most " ++ decimal maxConfigValueBytes ++
    " bytes, without line breaks, control characters or surrounding whitespace"

/-- The readers trim each line, skip a comment and split at the first `=`, so a key or a value that would not
read back as itself is refused. -/
def checkUpdates (path : Text) : List (Text × Text) → Except IoError Unit
  | [] => .ok ()
  | (key, value) :: updates =>
    if !configKeyIsSerializable key then .error ⟨.invalidInput, keyRefused path⟩
    else if !configValueIsSerializable value then .error ⟨.invalidInput, valueRefused path⟩
    else checkUpdates path updates

/-- The key of a line; a comment and a line without `=` have none. -/
def lineKey (line : Text) : Option Text :=
  if (trim line).head? = some '#' then none
  else (splitOnceAt '=' (trim line)).map fun e => trim e.1

def keyValueLine (key value : Text) : Text := key ++ '=' :: value

/-- The lines after the changes. `written` holds the places in `set` that have their line. -/
def changedLines (set : List (Text × Text)) (remove : List Text) :
    List Nat → List Text → List Text
  | written, [] =>
    (set.zipIdx.filter fun e => e.2 ∉ written).map fun e => keyValueLine e.1.1 e.1.2
  | written, line :: rest =>
    match lineKey line with
    | none => line :: changedLines set remove written rest
    | some key =>
      if key ∈ remove then changedLines set remove written rest
      else
        match set.zipIdx.find? fun e => e.1.1 = key with
        | none => line :: changedLines set remove written rest
        | some ((k, v), idx) =>
          if idx ∈ written then changedLines set remove written rest
          else keyValueLine k v :: changedLines set remove (idx :: written) rest

def applyKvChanges (existing : Text) (set : List (Text × Text)) (remove : List Text) : Text :=
  (changedLines set remove [] (lines existing)).flatMap (· ++ ['\n'])

def danglingLink (path : Text) : Text :=
  path ++ " is a symbolic link to a file that does not exist; refusing to replace the link"

def cannotBeRead (path : Text) (e : IoError) : Text :=
  path ++ " exists but cannot be read (" ++ e.text ++
    "); refusing to rewrite it, which would drop its other lines"

/-- The text that replaces the file. `read` is what reading it gave and `nameExists` whether its
name is there, a symbolic link to nothing included. -/
def publishKvChanges (path : Text) (read : Except IoError Text) (nameExists : Bool)
    (set : List (Text × Text)) (remove : List Text) : Except IoError Text := do
  checkUpdates path set
  let existing ← (match read with
    | .ok text => .ok text
    | .error e =>
      if e.kind = .notFound then
        if nameExists then .error ⟨e.kind, danglingLink path⟩ else .ok []
      else .error ⟨e.kind, cannotBeRead path e⟩)
  return applyKvChanges existing set remove

/-! ## What the writer checked -/

theorem checkUpdates_ok_iff {path : Text} {updates : List (Text × Text)} :
    checkUpdates path updates = .ok () ↔
      ∀ u ∈ updates, configKeyIsSerializable u.1 = true ∧ configValueIsSerializable u.2 = true := by
  induction updates with
  | nil => simp [checkUpdates]
  | cons u updates ih =>
    obtain ⟨key, value⟩ := u
    rw [checkUpdates, List.forall_mem_cons, ← ih]
    by_cases hkey : configKeyIsSerializable key = true <;>
      by_cases hvalue : configValueIsSerializable value = true <;> simp [hkey, hvalue]

theorem configKeyIsSerializable_iff {key : Text} :
    configKeyIsSerializable key = true ↔
      key ≠ [] ∧ byteLength key ≤ maxConfigKeyBytes ∧ trim key = key ∧ key.head? ≠ some '#' ∧
        '=' ∉ key ∧ ∀ c ∈ key, breaksALine c = false := by
  simp [configKeyIsSerializable, and_assoc]

theorem configValueIsSerializable_iff {value : Text} :
    configValueIsSerializable value = true ↔
      byteLength value ≤ maxConfigValueBytes ∧ trim value = value ∧
        ∀ c ∈ value, breaksALine c = false := by
  simp [configValueIsSerializable, and_assoc]

theorem publishKvChanges_ok_iff {path : Text} {read : Except IoError Text} {nameExists : Bool}
    {set : List (Text × Text)} {remove : List Text} {out : Text} :
    publishKvChanges path read nameExists set remove = .ok out ↔
      checkUpdates path set = .ok () ∧
        ∃ existing, (read = .ok existing ∨
            existing = [] ∧ nameExists = false ∧ ∃ e, read = .error e ∧ e.kind = .notFound) ∧
          applyKvChanges existing set remove = out := by
  unfold publishKvChanges
  rw [bind_ok_iff]
  constructor
  · intro h
    obtain ⟨_, hcheck, h⟩ := h
    obtain ⟨existing, hread, h⟩ := bind_ok_iff.1 h
    refine ⟨hcheck, existing, ?_, Except.ok.inj h⟩
    cases read with
    | ok text => exact .inl hread
    | error e =>
      right
      by_cases hkind : e.kind = .notFound
      · cases nameExists with
        | true => simp [hkind] at hread
        | false =>
          simp only [hkind, if_true, Bool.false_eq_true, if_false, Except.ok.injEq] at hread
          exact ⟨hread.symm, rfl, e, rfl, hkind⟩
      · simp [hkind] at hread
  · intro h
    obtain ⟨hcheck, existing, hread, h⟩ := h
    refine ⟨(), hcheck, bind_ok_iff.2 ⟨existing, ?_, congrArg Except.ok h⟩⟩
    rcases hread with rfl | ⟨rfl, rfl, e, rfl, hkind⟩
    · rfl
    · simp [hkind]

/-! ## The lines of one key -/

variable {key value : Text}

section

variable (hkey : configKeyIsSerializable key = true)

include hkey

theorem trim_keyValueLine
    (hvalue : trim value = value) : trim (keyValueLine key value) = keyValueLine key value := by
  obtain ⟨hne, -, htrim, -⟩ := configKeyIsSerializable_iff.1 hkey
  apply trim_eq_self_iff.2
  refine ⟨?_, ?_⟩
  · intro c hc
    rw [keyValueLine, List.head?_append_of_ne_nil _ hne] at hc
    exact (trim_eq_self_iff.1 htrim).1 c hc
  · intro c hc
    rw [keyValueLine, List.getLast?_append_cons] at hc
    by_cases hnil : value = []
    · obtain rfl : '=' = c := by simpa [hnil] using hc
      decide
    · rw [List.getLast?_cons_of_ne_nil hnil] at hc
      exact (trim_eq_self_iff.1 hvalue).2 c hc

theorem splitOnceAt_keyValueLine :
    splitOnceAt '=' (keyValueLine key value) = some (key, value) := by
  obtain ⟨-, -, -, -, heq, -⟩ := configKeyIsSerializable_iff.1 hkey
  exact splitOnceAt_eq_some_iff.2 ⟨rfl, heq⟩

theorem head?_keyValueLine :
    (keyValueLine key value).head? ≠ some '#' ∧ keyValueLine key value ≠ [] := by
  obtain ⟨hne, -, -, hhash, -⟩ := configKeyIsSerializable_iff.1 hkey
  refine ⟨?_, by simp [keyValueLine]⟩
  rwa [keyValueLine, List.head?_append_of_ne_nil _ hne]

theorem lineKey_keyValueLine
    (hvalue : trim value = value) : lineKey (keyValueLine key value) = some key := by
  obtain ⟨-, -, htrim, -⟩ := configKeyIsSerializable_iff.1 hkey
  rw [lineKey, trim_keyValueLine hkey hvalue, if_neg (head?_keyValueLine hkey).1,
    splitOnceAt_keyValueLine hkey, Option.map_some, htrim]

/-- A line that is written breaks at none of its characters. -/
theorem keyValueLine_unbroken
    (hvalue : configValueIsSerializable value = true) : ∀ c ∈ keyValueLine key value, breaksALine c = false := by
  obtain ⟨-, -, -, -, -, hk⟩ := configKeyIsSerializable_iff.1 hkey
  obtain ⟨-, -, hv⟩ := configValueIsSerializable_iff.1 hvalue
  intro c hmem
  rcases List.mem_append.1 hmem with hmem | hmem
  · exact hk c hmem
  · rcases List.mem_cons.1 hmem with rfl | hmem
    · decide
    · exact hv c hmem

end

/-! ## The changed lines -/

section Changed

variable {set : List (Text × Text)} {remove : List Text}

theorem changedLines_forall {P : Text → Prop} (hset : ∀ u ∈ set, P (keyValueLine u.1 u.2))
    {ls : List Text} (hkept : ∀ l ∈ ls, P l) (written : List Nat) :
    ∀ l ∈ changedLines set remove written ls, P l := by
  have hzip : ∀ {u : Text × Text} {i : Nat}, (u, i) ∈ set.zipIdx → P (keyValueLine u.1 u.2) := by
    intro u i hu
    exact hset u (List.fst_mem_of_mem_zipIdx hu)
  induction ls generalizing written with
  | nil =>
    intro l hl
    obtain ⟨e, he, rfl⟩ := List.mem_map.1 hl
    exact hzip (List.mem_filter.1 he).1
  | cons line rest ih =>
    have hrest := ih fun l hl => hkept l (List.mem_cons_of_mem _ hl)
    have hcons : ∀ {m : Text} {w : List Nat}, P m → ∀ l ∈ m :: changedLines set remove w rest, P l :=
      fun hm => List.forall_mem_cons.2 ⟨hm, hrest _⟩
    rw [changedLines]
    split
    · exact hcons (hkept _ List.mem_cons_self)
    · split
      · exact hrest _
      · split
        · exact hcons (hkept _ List.mem_cons_self)
        · next hfind =>
          split
          · exact hrest _
          · exact hcons (hzip (List.mem_of_find?_eq_some hfind))

def linesOf (key : Text) (ls : List Text) : List Text := ls.filter fun l => lineKey l = some key

theorem linesOf_cons (key line : Text) (ls : List Text) :
    linesOf key (line :: ls) = if lineKey line = some key then line :: linesOf key ls else linesOf key ls := by
  simp [linesOf, List.filter_cons]

theorem linesOf_append (key : Text) (ls ms : List Text) :
    linesOf key (ls ++ ms) = linesOf key ls ++ linesOf key ms := List.filter_append ..

theorem filter_eq_toList_find? {α β : Type} [DecidableEq β] {f : α → β} {l : List α}
    (h : (l.map f).Nodup) (b : β) :
    (l.filter fun a => f a = b) = (l.find? fun a => f a = b).toList := by
  induction l with
  | nil => rfl
  | cons a l ih =>
    rw [List.map_cons, List.nodup_cons] at h
    rw [List.filter_cons, List.find?_cons]
    by_cases hb : f a = b
    · have hnone : (l.filter fun a => f a = b) = [] := by
        apply List.filter_eq_nil_iff.2
        intro a' ha' heq
        apply h.1
        rw [hb, ← of_decide_eq_true heq]
        exact List.mem_map_of_mem ha'
      simp [hb, hnone]
    · simp [hb, ih h.2]

variable (hset : ∀ u ∈ set, configKeyIsSerializable u.1 = true ∧ configValueIsSerializable u.2 = true)
  (hnodup : (set.map Prod.fst).Nodup)

/-- Where a key stands in `set`. -/
def setPlace (set : List (Text × Text)) (key : Text) : Option ((Text × Text) × Nat) :=
  set.zipIdx.find? fun e => e.1.1 = key

theorem setPlace_some {key k v : Text} {idx : Nat} (h : setPlace set key = some ((k, v), idx)) :
    k = key ∧ ((k, v), idx) ∈ set.zipIdx := by
  have hkey := List.find?_some h
  exact ⟨of_decide_eq_true hkey, List.mem_of_find?_eq_some h⟩

theorem setPlace_inj {key key' : Text} {u u' : Text × Text} {idx : Nat}
    (h : setPlace set key = some (u, idx)) (h' : setPlace set key' = some (u', idx)) : key = key' := by
  obtain ⟨hkey, hmem⟩ := setPlace_some h
  obtain ⟨hkey', hmem'⟩ := setPlace_some h'
  have hu := List.mem_zipIdx_iff_getElem?.1 hmem
  rw [List.mem_zipIdx_iff_getElem?.1 hmem'] at hu
  rw [← hkey, ← hkey']
  exact (congrArg Prod.fst (Option.some.inj hu)).symm

include hset in
theorem lineKey_setPlace {key : Text} {u : Text × Text} {idx : Nat}
    (h : setPlace set key = some (u, idx)) : lineKey (keyValueLine u.1 u.2) = some key := by
  obtain ⟨rfl, hmem⟩ := setPlace_some h
  obtain ⟨hkey, hvalue⟩ := hset _ (List.fst_mem_of_mem_zipIdx hmem)
  exact lineKey_keyValueLine hkey (configValueIsSerializable_iff.1 hvalue).2.1

def linesAfter (set : List (Text × Text)) (remove : List Text) (written : List Nat) (ls : List Text)
    (key : Text) : List Text :=
  match setPlace set key with
  | some (u, idx) => if idx ∈ written then [] else [keyValueLine u.1 u.2]
  | none => if key ∈ remove then [] else linesOf key ls

include hset hnodup in
theorem linesOf_added (written : List Nat) (key : Text) :
    linesOf key (changedLines set remove written []) = linesAfter set remove written [] key := by
  have hkeys : (set.zipIdx.map fun e => e.1.1).Nodup := by
    have hmap : (set.zipIdx.map Prod.fst).map Prod.fst = set.map Prod.fst := by
      rw [List.zipIdx_map_fst]
    rw [← hmap, List.map_map] at hnodup
    exact hnodup
  have hline : ∀ e ∈ set.zipIdx, decide (lineKey (keyValueLine e.1.1 e.1.2) = some key) = decide (e.1.1 = key) := by
    intro e he
    obtain ⟨hkey, hvalue⟩ := hset _ (List.fst_mem_of_mem_zipIdx he)
    rw [lineKey_keyValueLine hkey (configValueIsSerializable_iff.1 hvalue).2.1]
    simp
  have hfilter : linesOf key (changedLines set remove written []) =
      ((setPlace set key).toList.filter fun e => e.2 ∉ written).map fun e => keyValueLine e.1.1 e.1.2 := by
    rw [setPlace, ← filter_eq_toList_find? hkeys key, changedLines, linesOf, List.filter_map,
      List.filter_filter, List.filter_filter]
    congr 1
    apply List.filter_congr
    intro e he
    simp only [Function.comp_apply, hline e he]
    exact Bool.and_comm ..
  rw [hfilter, linesAfter]
  cases setPlace set key with
  | none => simp [linesOf]
  | some e => by_cases h : e.2 ∈ written <;> simp [h]

include hset hnodup in
theorem linesOf_changedLines (written : List Nat) (ls : List Text) (key : Text) :
    linesOf key (changedLines set remove written ls) = linesAfter set remove written ls key := by
  induction ls generalizing written with
  | nil => exact linesOf_added hset hnodup written key
  | cons line rest ih =>
    -- a line of another key does not change what happens to this one
    have hother : lineKey line ≠ some key →
        linesAfter set remove written (line :: rest) key = linesAfter set remove written rest key := by
      intro hne
      simp only [linesAfter, linesOf_cons, if_neg hne]
    rw [changedLines]
    split
    · next hnone =>
      have hne : lineKey line ≠ some key := by simp [hnone]
      rw [linesOf_cons, if_neg hne, ih, hother hne]
    · next k hk =>
      by_cases hown : k = key
      · subst hown
        split
        · next hremove => simp [ih, linesAfter, hremove]
        · next hremove =>
          split
          · next hfind =>
            have hplace : setPlace set k = none := hfind
            simp [linesOf_cons, hk, ih, linesAfter, hplace, hremove]
          · next u v idx hfind =>
            have hplace : setPlace set k = some ((u, v), idx) := hfind
            have hline : lineKey (keyValueLine u v) = some k := lineKey_setPlace hset hplace
            split
            · next hwritten => simp [ih, linesAfter, hplace, hwritten]
            · next hwritten => simp [linesOf_cons, hline, ih, linesAfter, hplace, hwritten]
      · have hne : lineKey line ≠ some key := by
          rw [hk]
          exact fun heq => hown (Option.some.inj heq)
        rw [hother hne]
        split
        · exact ih _
        · split
          · rw [linesOf_cons, if_neg hne, ih]
          · next u v idx hfind =>
            have hplace : setPlace set k = some ((u, v), idx) := hfind
            have hline : lineKey (keyValueLine u v) ≠ some key := by
              have hline : lineKey (keyValueLine u v) = some k := lineKey_setPlace hset hplace
              rw [hline]
              exact fun heq => hown (Option.some.inj heq)
            split
            · exact ih _
            · rw [linesOf_cons, if_neg hline, ih]
              unfold linesAfter
              split
              · next u' idx' hplace' =>
                have hidx : idx' ≠ idx := by
                  rintro rfl
                  exact hown (setPlace_inj hplace hplace')
                simp [hidx]
              · rfl

end Changed

end Irlume.Config
