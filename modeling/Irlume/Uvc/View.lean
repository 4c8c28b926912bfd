import Irlume.Uvc.Agreement

/-!
# The active configuration

A blob is a device descriptor, what stands before the first configuration, and the configurations, each with the
descriptors behind its own (`Blob`). `activeDescriptorView` takes exactly the blobs with a configuration of the active
value, and gives what stands before the configurations with that one (`activeDescriptorView_eq_some_iff`): what the
parsers find in the view does not depend on any other configuration.
-/

namespace Irlume.Uvc

open Irlume.Lib

/-- A descriptor that does not start a configuration. -/
structure IsInner (d : List UInt8) : Prop where
  frame : IsFrame d
  notDevice : byte d 1 ≠ descDevice
  notConfiguration : byte d 1 ≠ descConfiguration
  interface : byte d 1 = descInterface → 9 ≤ d.length

instance (d : List UInt8) : Decidable (IsInner d) :=
  decidable_of_iff (IsFrame d ∧ byte d 1 ≠ descDevice ∧ byte d 1 ≠ descConfiguration ∧
    (byte d 1 = descInterface → 9 ≤ d.length))
    ⟨fun ⟨hframe, hdevice, hconfiguration, hinterface⟩ => ⟨hframe, hdevice, hconfiguration, hinterface⟩,
      fun h => ⟨h.frame, h.notDevice, h.notConfiguration, h.interface⟩⟩

structure Configuration where
  own : List UInt8
  inner : List (List UInt8)
  frame : IsFrame own
  kind : byte own 1 = descConfiguration
  length_ge : 9 ≤ own.length
  named : byte own 5 ≠ 0
  inners : ∀ d ∈ inner, IsInner d

namespace Configuration

/-- `bConfigurationValue`. -/
def value (c : Configuration) : UInt8 := byte c.own 5

def descriptors (c : Configuration) : List (List UInt8) := c.own :: c.inner

def bytes (c : Configuration) : List UInt8 := c.descriptors.flatten

theorem isFrame (c : Configuration) : ∀ d ∈ c.descriptors, IsFrame d := by
  intro d hd
  rcases List.mem_cons.1 hd with rfl | hd
  · exact c.frame
  · exact (c.inners d hd).frame

end Configuration

/-- A blob whose device descriptor counts its configurations, no two of one value. -/
structure Blob where
  device : List UInt8
  before : List (List UInt8)
  configurations : List Configuration
  length_device : device.length = 18
  bLength : byte device 0 = 18
  kind : byte device 1 = descDevice
  befores : ∀ d ∈ before, IsInner d ∧ byte d 1 ≠ descInterface
  distinct : (configurations.map Configuration.value).Nodup
  counted : configurations.length = (byte device 17).toNat

namespace Blob

def head (b : Blob) : List UInt8 := b.device ++ b.before.flatten

def descriptors (b : Blob) : List (List UInt8) := b.before ++ b.configurations.flatMap Configuration.descriptors

def bytes (b : Blob) : List UInt8 := b.device ++ b.descriptors.flatten

theorem isFrame (b : Blob) : ∀ d ∈ b.descriptors, IsFrame d := by
  intro d hd
  rcases List.mem_append.1 hd with hd | hd
  · exact (b.befores d hd).1.frame
  · obtain ⟨c, -, hd⟩ := List.mem_flatMap.1 hd
    exact c.isFrame d hd

end Blob

/-! ## One descriptor -/

namespace ViewWalk

variable {active : UInt8} {s s' : ViewWalk} {d : List UInt8} {c : Configuration} {stop : Nat}

theorem close_eq : ∃ selected, s.close active stop = { s with selected } := by
  unfold close
  split
  · split
    · exact ⟨_, rfl⟩
    · exact ⟨s.selected, rfl⟩
  · exact ⟨s.selected, rfl⟩

@[simp]
theorem close_pos : (s.close active stop).pos = s.pos := by
  obtain ⟨selected, heq⟩ := @close_eq active s stop
  rw [heq]

@[simp]
theorem close_seen : (s.close active stop).seen = s.seen := by
  obtain ⟨selected, heq⟩ := @close_eq active s stop
  rw [heq]

@[simp]
theorem close_count : (s.close active stop).count = s.count := by
  obtain ⟨selected, heq⟩ := @close_eq active s stop
  rw [heq]

@[simp]
theorem close_prefixEnd : (s.close active stop).prefixEnd = s.prefixEnd := by
  obtain ⟨selected, heq⟩ := @close_eq active s stop
  rw [heq]

def past (s : ViewWalk) (count : Nat) : ViewWalk := { s with pos := s.pos + count }

def enter (active : UInt8) (s : ViewWalk) (value : UInt8) (count : Nat) : ViewWalk :=
  { s.close active s.pos with
    seen := insert value s.seen
    count := s.count + 1
    prefixEnd := some (s.prefixEnd.getD s.pos)
    current := some (value, s.pos)
    pos := s.pos + count }

theorem step_cases (h : s.step active d = some s') :
    (byte d 1 = descConfiguration ∧ 9 ≤ d.length ∧ byte d 5 ≠ 0 ∧ byte d 5 ∉ s.seen ∧
        s' = s.enter active (byte d 5) d.length) ∨
      (byte d 1 ≠ descDevice ∧ byte d 1 ≠ descConfiguration ∧
        (byte d 1 = descInterface → 9 ≤ d.length ∧ s.current ≠ none) ∧ s' = s.past d.length) := by
  unfold step at h
  split at h
  · cases h
  split at h
  · next hkind =>
    split at h
    · cases h
    · next hlength =>
      dsimp only at h
      split at h
      · cases h
      · next hvalue =>
        rw [close_seen, not_or] at hvalue
        cases h
        refine .inl ⟨hkind, by omega, hvalue.1, hvalue.2, ?_⟩
        simp [enter]
  · next hdevice hconfiguration =>
    split at h
    · cases h
    · next hinterface =>
      cases h
      refine .inr ⟨hdevice, hconfiguration, fun hkind => ?_, rfl⟩
      rw [not_and, not_or, Nat.not_lt] at hinterface
      exact hinterface hkind

theorem step_own (hfresh : c.value ∉ s.seen) : s.step active c.own = some (s.enter active c.value c.own.length) := by
  have hlength := c.length_ge
  unfold step
  rw [c.kind, if_neg (by decide), if_pos rfl, if_neg (by omega)]
  dsimp only
  rw [if_neg]
  · simp [enter, Configuration.value]
  · rw [close_seen, not_or]
    exact ⟨c.named, hfresh⟩

theorem step_inner (h : IsInner d) (hin : byte d 1 = descInterface → s.current ≠ none) :
    s.step active d = some (s.past d.length) := by
  unfold step
  rw [if_neg h.notDevice, if_neg h.notConfiguration, if_neg]
  · rfl
  · rintro ⟨hkind, hshort | hnone⟩
    · have hlength := h.interface hkind
      omega
    · exact hin hkind hnone

/-! ## One configuration -/

variable {count : Nat}

theorem past_past {m n : Nat} : (s.past m).past n = s.past (m + n) := by
  unfold past
  rw [Nat.add_assoc]

theorem run_inner {ds : List (List UInt8)} (h : ∀ d ∈ ds, IsInner d)
    (hin : ∀ d ∈ ds, byte d 1 = descInterface → s.current ≠ none) :
    ds.foldlM (step active) s = some (s.past ds.flatten.length) := by
  induction ds generalizing s with
  | nil => rfl
  | cons d ds ih =>
    rw [List.forall_mem_cons] at h hin
    rw [List.foldlM_cons, step_inner h.1 hin.1]
    show ds.foldlM (step active) (s.past d.length) = _
    rw [ih (s := s.past d.length) h.2 hin.2, past_past, List.flatten_cons, List.length_append]

theorem run_configuration (hfresh : c.value ∉ s.seen) :
    c.descriptors.foldlM (step active) s = some (s.enter active c.value c.bytes.length) := by
  unfold Configuration.descriptors
  rw [List.foldlM_cons, step_own hfresh]
  show c.inner.foldlM (step active) (s.enter active c.value c.own.length) = _
  rw [run_inner c.inners fun _ _ _ => Option.some_ne_none _]
  unfold past enter Configuration.bytes Configuration.descriptors
  rw [List.flatten_cons, List.length_append, Nat.add_assoc]

def enterAll (active : UInt8) (s : ViewWalk) (cs : List Configuration) : ViewWalk :=
  cs.foldl (fun s c => s.enter active c.value c.bytes.length) s

variable {cs : List Configuration}

theorem run_configurations (hdistinct : (cs.map Configuration.value).Nodup)
    (hfresh : ∀ c ∈ cs, c.value ∉ s.seen) :
    (cs.flatMap Configuration.descriptors).foldlM (step active) s = some (s.enterAll active cs) := by
  induction cs generalizing s with
  | nil => rfl
  | cons c cs ih =>
    rw [List.map_cons, List.nodup_cons] at hdistinct
    rw [List.forall_mem_cons] at hfresh
    rw [List.flatMap_cons, List.foldlM_append, run_configuration hfresh.1]
    show (cs.flatMap Configuration.descriptors).foldlM (step active) (s.enter active c.value c.bytes.length) = _
    rw [ih hdistinct.2]
    · rfl
    · intro c' hc' hseen
      rcases Finset.mem_insert.1 hseen with hsame | hseen
      · exact hdistinct.1 (hsame ▸ List.mem_map_of_mem hc')
      · exact hfresh.2 c' hc' hseen

theorem split_of_run {ds : List (List UInt8)} (hframes : ∀ d ∈ ds, IsFrame d)
    (h : ds.foldlM (step active) s = some s') :
    ∃ (inner : List (List UInt8)) (cs : List Configuration), ds = inner ++ cs.flatMap Configuration.descriptors ∧
      (∀ d ∈ inner, IsInner d ∧ (byte d 1 = descInterface → s.current ≠ none)) ∧
      (cs.map Configuration.value).Nodup ∧ ∀ c ∈ cs, c.value ∉ s.seen := by
  induction ds generalizing s with
  | nil => exact ⟨[], [], rfl, nofun, List.nodup_nil, nofun⟩
  | cons d ds ih =>
    rw [List.forall_mem_cons] at hframes
    rw [List.foldlM_cons] at h
    obtain ⟨m, hm, h⟩ := Option.bind_eq_some_iff.1 h
    obtain ⟨inner, cs, rfl, hinner, hdistinct, hfresh⟩ := ih hframes.2 h
    rcases step_cases hm with ⟨hkind, hlength, hnamed, hnew, rfl⟩ | ⟨hdevice, hconfiguration, hinterface, rfl⟩
    · let c : Configuration := ⟨d, inner, hframes.1, hkind, hlength, hnamed, fun d hd => (hinner d hd).1⟩
      refine ⟨[], c :: cs, rfl, nofun, ?_, ?_⟩
      · rw [List.map_cons, List.nodup_cons]
        refine ⟨fun hmem => ?_, hdistinct⟩
        obtain ⟨c', hc', hsame⟩ := List.mem_map.1 hmem
        exact hfresh c' hc' (Finset.mem_insert.2 (.inl hsame))
      · rw [List.forall_mem_cons]
        exact ⟨hnew, fun c' hc' hseen => hfresh c' hc' (Finset.mem_insert.2 (.inr hseen))⟩
    · refine ⟨d :: inner, cs, rfl, ?_, hdistinct, hfresh⟩
      rw [List.forall_mem_cons]
      exact ⟨⟨⟨hframes.1, hdevice, hconfiguration, fun hkind => (hinterface hkind).1⟩,
        fun hkind => (hinterface hkind).2⟩, hinner⟩

theorem run_all {before : List (List UInt8)}
    (hbefore : ∀ d ∈ before, IsInner d ∧ byte d 1 ≠ descInterface)
    (hdistinct : (cs.map Configuration.value).Nodup) :
    (before ++ cs.flatMap Configuration.descriptors).foldlM (step active) { pos := 18 } =
      some ((past { pos := 18 } before.flatten.length).enterAll active cs) := by
  rw [List.foldlM_append, run_inner (fun d hd => (hbefore d hd).1) fun d hd hkind => absurd hkind (hbefore d hd).2]
  exact run_configurations hdistinct fun c _ => Finset.notMem_empty _

/-! ## What is selected -/

def selection (active : UInt8) (s : ViewWalk) : Option (Nat × Nat) := (s.close active s.pos).selected

theorem selection_enter {value : UInt8} : selection active (s.enter active value count) =
    if value = active then some (s.pos, s.pos + count) else selection active s := by
  unfold selection
  split
  · next hactive =>
    unfold close enter
    dsimp only
    rw [if_pos hactive]
  · next hactive =>
    conv_lhs => unfold close enter
    dsimp only
    rw [if_neg hactive]

@[simp]
theorem enter_pos {value : UInt8} : (s.enter active value count).pos = s.pos + count := rfl

theorem enterAll_append {cs cs' : List Configuration} :
    s.enterAll active (cs ++ cs') = (s.enterAll active cs).enterAll active cs' := by
  exact List.foldl_append

theorem enterAll_cons :
    s.enterAll active (c :: cs) = (s.enter active c.value c.bytes.length).enterAll active cs := rfl

theorem selection_enterAll_other (h : ∀ c ∈ cs, c.value ≠ active) :
    selection active (s.enterAll active cs) = selection active s := by
  induction cs generalizing s with
  | nil => rfl
  | cons c cs ih =>
    rw [List.forall_mem_cons] at h
    rw [enterAll_cons, ih h.2, selection_enter, if_neg h.1]

theorem enterAll_pos :
    (s.enterAll active cs).pos = s.pos + (cs.flatMap Configuration.descriptors).flatten.length := by
  induction cs generalizing s with
  | nil => rfl
  | cons c cs ih =>
    rw [enterAll_cons, ih, enter_pos, List.flatMap_cons, List.flatten_append, List.length_append, Nat.add_assoc]
    rfl

theorem enterAll_count : (s.enterAll active cs).count = s.count + cs.length := by
  induction cs generalizing s with
  | nil => rfl
  | cons c cs ih =>
    rw [enterAll_cons, ih]
    simp only [enter, List.length_cons]
    omega

theorem enterAll_prefixEnd (hne : cs ≠ []) :
    (s.enterAll active cs).prefixEnd = some (s.prefixEnd.getD s.pos) := by
  have hkept : ∀ (cs : List Configuration) (s : ViewWalk) e, s.prefixEnd = some e →
      (s.enterAll active cs).prefixEnd = some e := by
    intro cs
    induction cs with
    | nil => exact fun _ _ h => h
    | cons c cs ih =>
      intro s e he
      rw [enterAll_cons]
      refine ih _ _ ?_
      simp [enter, he]
  obtain ⟨c, cs, rfl⟩ := List.exists_cons_of_ne_nil hne
  rw [enterAll_cons]
  exact hkept cs _ _ rfl

end ViewWalk

/-! ## The whole blob -/

variable {raw v : List UInt8} {active : UInt8} {b : Blob} {c : Configuration}

theorem activeDescriptorView_eq_some_iff_walk : activeDescriptorView raw active = some v ↔
    (active ≠ 0 ∧ 18 ≤ raw.length ∧ byte raw 0 = 18 ∧ byte raw 1 = descDevice) ∧
      ∃ s, walk (ViewWalk.step active) { pos := 18 } (raw.drop 18) = some s ∧ s.count = (byte raw 17).toNat ∧
        ∃ start stop prefixEnd, (s.close active raw.length).selected = some (start, stop) ∧
          s.prefixEnd = some prefixEnd ∧ v = raw.take prefixEnd ++ (raw.take stop).drop start := by
  unfold activeDescriptorView
  dsimp only
  constructor
  · intro h
    split at h
    · cases h
    · next hhead =>
      rw [not_or, not_or, not_or, not_not, not_not, Nat.not_lt] at hhead
      obtain ⟨s, hs, h⟩ := Option.bind_eq_some_iff.1 h
      split at h
      · cases h
      · next hcount =>
        obtain ⟨⟨start, stop⟩, hselected, h⟩ := Option.bind_eq_some_iff.1 h
        obtain ⟨prefixEnd, hprefix, h⟩ := Option.bind_eq_some_iff.1 h
        rw [ViewWalk.close_count, not_not] at hcount
        rw [ViewWalk.close_prefixEnd] at hprefix
        exact ⟨hhead, s, hs, hcount, start, stop, prefixEnd, hselected, hprefix, (Option.some.inj h).symm⟩
  · rintro ⟨⟨hactive, hlength, hfirst, hkind⟩, s, hs, hcount, start, stop, prefixEnd, hselected, hprefix, rfl⟩
    rw [if_neg]
    · refine Option.bind_eq_some_iff.2 ⟨s, hs, ?_⟩
      rw [ViewWalk.close_count, if_neg (not_not.2 hcount)]
      refine Option.bind_eq_some_iff.2 ⟨(start, stop), hselected, ?_⟩
      rw [ViewWalk.close_prefixEnd]
      exact Option.bind_eq_some_iff.2 ⟨prefixEnd, hprefix, rfl⟩
    · rw [not_or, not_or, not_or, not_not, not_not, Nat.not_lt]
      exact ⟨hactive, hlength, hfirst, hkind⟩

namespace Blob

theorem byte_bytes {i : Nat} (hi : i < 18) : byte b.bytes i = byte b.device i := by
  have hlength := b.length_device
  unfold byte bytes
  rw [List.getD_eq_getElem?_getD, List.getD_eq_getElem?_getD, List.getElem?_append_left (by omega)]

theorem length_bytes : b.bytes.length = 18 + b.descriptors.flatten.length := by
  unfold bytes
  rw [List.length_append, b.length_device]

theorem drop_bytes : b.bytes.drop 18 = b.descriptors.flatten := by
  unfold bytes
  rw [← b.length_device, List.drop_left]

theorem frames_drop_bytes : frames (b.bytes.drop 18) = some b.descriptors := by
  rw [drop_bytes]
  exact frames_eq_some_iff.2 ⟨rfl, b.isFrame⟩

def walked (b : Blob) (active : UInt8) : ViewWalk :=
  (ViewWalk.past { pos := 18 } b.before.flatten.length).enterAll active b.configurations

theorem walk_drop_bytes :
    walk (ViewWalk.step active) { pos := 18 } (b.bytes.drop 18) = some (b.walked active) := by
  unfold walk
  rw [frames_drop_bytes]
  exact ViewWalk.run_all b.befores b.distinct

theorem walked_pos : (b.walked active).pos = b.bytes.length := by
  unfold walked
  rw [ViewWalk.enterAll_pos, length_bytes]
  unfold descriptors
  rw [List.flatten_append, List.length_append]
  exact Nat.add_assoc _ _ _

theorem walked_count : (b.walked active).count = b.configurations.length := by
  unfold walked
  rw [ViewWalk.enterAll_count]
  exact Nat.zero_add _

theorem bytes_eq_of_split {l r : List Configuration} (h : b.configurations = l ++ c :: r) :
    b.bytes = b.head ++ (l.flatMap Configuration.descriptors).flatten ++ c.bytes ++
      (r.flatMap Configuration.descriptors).flatten := by
  unfold bytes descriptors head Configuration.bytes
  rw [h, List.flatMap_append, List.flatMap_cons]
  simp only [List.flatten_append, List.append_assoc]

theorem selection_walked {l r : List Configuration} (h : b.configurations = l ++ c :: r)
    (hother : ∀ c' ∈ r, c'.value ≠ c.value) :
    ViewWalk.selection c.value (b.walked c.value) =
      some (b.head.length + (l.flatMap Configuration.descriptors).flatten.length,
        b.head.length + (l.flatMap Configuration.descriptors).flatten.length + c.bytes.length) := by
  unfold walked
  rw [h, ViewWalk.enterAll_append, ViewWalk.enterAll_cons, ViewWalk.selection_enterAll_other hother,
    ViewWalk.selection_enter, if_pos rfl, ViewWalk.enterAll_pos]
  unfold head
  rw [List.length_append, b.length_device]
  rfl

theorem activeDescriptorView_bytes (hc : c ∈ b.configurations) :
    activeDescriptorView b.bytes c.value = some (b.head ++ c.bytes) := by
  obtain ⟨l, r, hsplit⟩ := List.append_of_mem hc
  have hdistinct := b.distinct
  rw [hsplit, List.map_append, List.map_cons] at hdistinct
  have hother : ∀ c' ∈ r, c'.value ≠ c.value := by
    intro c' hc' hsame
    have hnew := (List.nodup_cons.1 (List.nodup_append.1 hdistinct).2.1).1
    exact hnew (hsame ▸ List.mem_map_of_mem hc')
  have hselected := selection_walked hsplit hother
  unfold ViewWalk.selection at hselected
  rw [walked_pos] at hselected
  have hprefix : (b.walked c.value).prefixEnd = some b.head.length := by
    unfold walked head
    rw [ViewWalk.enterAll_prefixEnd (List.ne_nil_of_mem hc), List.length_append, b.length_device]
    rfl
  have hbytes := bytes_eq_of_split hsplit
  refine activeDescriptorView_eq_some_iff_walk.2 ⟨⟨c.named, ?_, ?_, ?_⟩, b.walked c.value, walk_drop_bytes, ?_, _, _, _,
    hselected, hprefix, ?_⟩
  · rw [length_bytes]
    exact Nat.le_add_right _ _
  · rw [byte_bytes (by decide), b.bLength]
  · rw [byte_bytes (by decide), b.kind]
  · rw [walked_count, byte_bytes (by decide), b.counted]
  · rw [hbytes, ← List.length_append, ← List.length_append, List.take_left, List.drop_left, List.append_assoc,
      List.append_assoc, List.take_left]

theorem exists_of_activeDescriptorView (h : activeDescriptorView raw active = some v) :
    ∃ b : Blob, ∃ c ∈ b.configurations, b.bytes = raw ∧ c.value = active := by
  obtain ⟨⟨-, hlength, hfirst, hkind⟩, s, hs, hcount, start, stop, prefixEnd, hselected, -, -⟩ :=
    activeDescriptorView_eq_some_iff_walk.1 h
  obtain ⟨ds, hds, hrun⟩ := Option.bind_eq_some_iff.1 hs
  obtain ⟨hflatten, hframes⟩ := frames_eq_some_iff.1 hds
  obtain ⟨before, cs, rfl, hinner, hdistinct, -⟩ := ViewWalk.split_of_run hframes hrun
  have hbefore : ∀ d ∈ before, IsInner d ∧ byte d 1 ≠ descInterface :=
    fun d hd => ⟨(hinner d hd).1, fun hkind => (hinner d hd).2 hkind rfl⟩
  rw [ViewWalk.run_all hbefore hdistinct] at hrun
  cases hrun
  have hbyte : ∀ i, i < 18 → byte (raw.take 18) i = byte raw i := by
    intro i hi
    unfold byte
    rw [List.getD_eq_getElem?_getD, List.getD_eq_getElem?_getD, List.getElem?_take_of_lt hi]
  let b : Blob :=
    { device := raw.take 18
      before
      configurations := cs
      length_device := by rw [List.length_take]; omega
      bLength := by rw [hbyte 0 (by decide), hfirst]
      kind := by rw [hbyte 1 (by decide), hkind]
      befores := hbefore
      distinct := hdistinct
      counted := by
        rw [hbyte 17 (by decide), ← hcount, ViewWalk.enterAll_count]
        exact (Nat.zero_add _).symm }
  have hraw : b.bytes = raw := by
    show raw.take 18 ++ (before ++ cs.flatMap Configuration.descriptors).flatten = raw
    rw [hflatten, List.take_append_drop]
  by_contra hnone
  have hother : ∀ c ∈ cs, c.value ≠ active := fun c hc hsame => hnone ⟨b, c, hc, hraw, hsame⟩
  have hselection := ViewWalk.selection_enterAll_other (s := ViewWalk.past { pos := 18 } before.flatten.length) hother
  unfold ViewWalk.selection at hselection
  have hpos : ((ViewWalk.past { pos := 18 } before.flatten.length).enterAll active cs).pos = raw.length := by
    rw [← hraw]
    exact b.walked_pos
  rw [hpos, hselected] at hselection
  cases hselection

theorem isFrame_device (b : Blob) : IsFrame b.device := by
  have hlength := b.length_device
  refine ⟨by omega, ?_⟩
  obtain ⟨first, rest, hdevice⟩ := List.exists_cons_of_length_pos (by omega : 0 < b.device.length)
  have hfirst := b.bLength
  rw [hdevice] at hfirst
  have hfirst : first = 18 := hfirst
  rw [b.length_device, hdevice, hfirst]
  rfl

theorem frames_view (b : Blob) (c : Configuration) :
    frames (b.head ++ c.bytes) = some (b.device :: (b.before ++ c.descriptors)) := by
  refine frames_eq_some_iff.2 ⟨?_, ?_⟩
  · unfold head Configuration.bytes
    rw [List.flatten_cons, List.flatten_append, List.append_assoc]
  · rw [List.forall_mem_cons, List.forall_mem_append]
    exact ⟨b.isFrame_device, fun d hd => (b.befores d hd).1.frame, c.isFrame⟩

theorem values_descriptors (b : Blob) :
    (b.descriptors.filter fun d => byte d 1 = descConfiguration).map (byte · 5) =
      b.configurations.map Configuration.value := by
  have hbefore : (b.before.filter fun d => byte d 1 = descConfiguration) = [] :=
    List.filter_eq_nil_iff.2 fun d hd hkind => (b.befores d hd).1.notConfiguration (of_decide_eq_true hkind)
  unfold descriptors
  rw [List.filter_append, hbefore, List.nil_append]
  induction b.configurations with
  | nil => rfl
  | cons c cs ih =>
    have hinner : (c.inner.filter fun d => byte d 1 = descConfiguration) = [] :=
      List.filter_eq_nil_iff.2 fun d hd hkind => (c.inners d hd).notConfiguration (of_decide_eq_true hkind)
    rw [List.flatMap_cons, List.filter_append, List.map_append, ih]
    have hown : decide (byte c.own 1 = descConfiguration) = true := decide_eq_true c.kind
    unfold Configuration.descriptors
    rw [List.filter_cons, if_pos hown, hinner]
    rfl

end Blob

theorem activeDescriptorView_eq_some_iff : activeDescriptorView raw active = some v ↔
    ∃ b : Blob, ∃ c ∈ b.configurations, b.bytes = raw ∧ c.value = active ∧ v = b.head ++ c.bytes := by
  constructor
  · intro h
    obtain ⟨b, c, hc, rfl, rfl⟩ := Blob.exists_of_activeDescriptorView h
    rw [Blob.activeDescriptorView_bytes hc] at h
    exact ⟨b, c, hc, rfl, rfl, (Option.some.inj h).symm⟩
  · rintro ⟨b, c, hc, rfl, rfl, rfl⟩
    exact Blob.activeDescriptorView_bytes hc

theorem countP_view (b : Blob) (c : Configuration) :
    (b.device :: (b.before ++ c.descriptors)).countP (fun d => byte d 1 = descConfiguration) = 1 := by
  have hdevice : ¬ byte b.device 1 = descConfiguration := by
    rw [b.kind]
    decide
  have hbefore : b.before.countP (fun d => byte d 1 = descConfiguration) = 0 :=
    List.countP_eq_zero.2 fun d hd hkind => (b.befores d hd).1.notConfiguration (of_decide_eq_true hkind)
  have hinner : c.inner.countP (fun d => byte d 1 = descConfiguration) = 0 :=
    List.countP_eq_zero.2 fun d hd hkind => (c.inners d hd).notConfiguration (of_decide_eq_true hkind)
  unfold Configuration.descriptors
  simp [hdevice, hbefore, hinner, c.kind]

theorem view_eq_of_single {b : Blob} (hc : c ∈ b.configurations) (hone : byte b.bytes 17 = 1) :
    b.head ++ c.bytes = b.bytes := by
  have hlength : b.configurations.length = 1 := by
    rw [b.counted, ← b.byte_bytes (by decide), hone]
    rfl
  obtain ⟨c', hcs⟩ := List.length_eq_one_iff.1 hlength
  obtain rfl : c = c' := List.mem_singleton.1 (hcs ▸ hc)
  have hbytes := Blob.bytes_eq_of_split (l := []) (r := []) hcs
  rw [hbytes]
  simp

theorem activeDescriptorView_of_frames (h : frames (raw.drop 18) = none) : activeDescriptorView raw active = none := by
  rw [Option.eq_none_iff_forall_ne_some]
  intro v hv
  obtain ⟨b, c, -, rfl, -, -⟩ := activeDescriptorView_eq_some_iff.1 hv
  rw [b.frames_drop_bytes] at h
  cases h

theorem activeDescriptorView_of_values {ds : List (List UInt8)} {values : List UInt8}
    (hds : frames (raw.drop 18) = some ds)
    (hvalues : (ds.filter fun d => byte d 1 = descConfiguration).map (byte · 5) = values)
    (hbad : 0 ∈ values ∨ ¬ values.Nodup ∨ values.length ≠ (byte raw 17).toNat) :
    activeDescriptorView raw active = none := by
  rw [Option.eq_none_iff_forall_ne_some]
  intro v hv
  obtain ⟨b, c, -, rfl, -, -⟩ := activeDescriptorView_eq_some_iff.1 hv
  rw [b.frames_drop_bytes] at hds
  cases hds
  rw [b.values_descriptors] at hvalues
  obtain rfl := hvalues
  rcases hbad with hzero | hrepeated | hcount
  · obtain ⟨c', -, hvalue⟩ := List.mem_map.1 hzero
    exact c'.named hvalue
  · exact hrepeated b.distinct
  · rw [List.length_map, b.byte_bytes (by decide)] at hcount
    exact hcount b.counted

/-! ## What the parsers find -/

/-- The bytes before the first configuration, and those of the configuration of this value up to the next one. -/
def Segments (raw : List UInt8) (active : UInt8) (before own : List UInt8) : Prop :=
  ∃ b : Blob, ∃ c ∈ b.configurations, b.bytes = raw ∧ c.value = active ∧ b.head = before ∧ c.bytes = own

theorem activeDescriptorView_iff_segments : activeDescriptorView raw active = some v ↔
    ∃ before own, Segments raw active before own ∧ v = before ++ own := by
  rw [activeDescriptorView_eq_some_iff]
  constructor
  · rintro ⟨b, c, hc, hraw, hvalue, rfl⟩
    exact ⟨b.head, c.bytes, ⟨b, c, hc, hraw, hvalue, rfl, rfl⟩, rfl⟩
  · rintro ⟨before, own, ⟨b, c, hc, hraw, hvalue, rfl, rfl⟩, rfl⟩
    exact ⟨b, c, hc, hraw, hvalue, rfl⟩

/-- **Inactive configurations have no influence.** The view of a blob is what stands before its first configuration
followed by the one configuration of the active value: it has one configuration descriptor, and where one is counted
it is the blob. So two blobs that agree on these two segments have the same extension units and attest the same. A
blob that is cut, or has a length of zero or one, a repeated or zero value, or another number of configurations than
it counts has no view. -/
theorem activeDescriptorView_exact :
    (∀ raw active v, activeDescriptorView raw active = some v ↔
        ∃ before own, Segments raw active before own ∧ v = before ++ own) ∧
      (∀ raw active v, activeDescriptorView raw active = some v →
        (∃ ds, frames v = some ds ∧ ds.countP (fun d => byte d 1 = descConfiguration) = 1) ∧
          (byte raw 17 = 1 → v = raw)) ∧
      (∀ raw raw' active before own interfaceNumber, Segments raw active before own →
        Segments raw' active before own →
          CameraIdentity.extensionUnits ⟨raw, active, interfaceNumber⟩ =
              CameraIdentity.extensionUnits ⟨raw', active, interfaceNumber⟩ ∧
            CameraIdentity.irFunctionEvidence ⟨raw, active, interfaceNumber⟩ =
              CameraIdentity.irFunctionEvidence ⟨raw', active, interfaceNumber⟩) ∧
      (∀ raw active, raw.length < 18 ∨ byte raw 0 ≠ 18 → activeDescriptorView raw active = none) ∧
      ∀ (device : List UInt8) (ds : List (List UInt8)) active, device.length = 18 → (∀ d ∈ ds, IsFrame d) →
        (∀ d k, IsFrame d → 0 < k → k < d.length →
            activeDescriptorView (device ++ (ds.flatten ++ d.take k)) active = none) ∧
          (∀ b rest, b.toNat < 2 → activeDescriptorView (device ++ (ds.flatten ++ b :: rest)) active = none) ∧
          ∀ values : List UInt8, (ds.filter fun d => byte d 1 = descConfiguration).map (byte · 5) = values →
            0 ∈ values ∨ ¬ values.Nodup ∨ values.length ≠ (byte device 17).toNat →
              activeDescriptorView (device ++ ds.flatten) active = none := by
  refine ⟨fun raw active v => activeDescriptorView_iff_segments, ?_, ?_, ?_, ?_⟩
  · intro raw active v h
    obtain ⟨b, c, hc, rfl, rfl, rfl⟩ := activeDescriptorView_eq_some_iff.1 h
    exact ⟨⟨_, b.frames_view c, countP_view b c⟩, view_eq_of_single hc⟩
  · intro raw raw' active before own interfaceNumber h h'
    have hview := activeDescriptorView_iff_segments.2 ⟨before, own, h, rfl⟩
    have hview' := activeDescriptorView_iff_segments.2 ⟨before, own, h', rfl⟩
    unfold CameraIdentity.extensionUnits CameraIdentity.irFunctionEvidence
    dsimp only
    rw [hview, hview']
    exact ⟨rfl, rfl⟩
  · intro raw active hhead
    rw [Option.eq_none_iff_forall_ne_some]
    intro v hv
    obtain ⟨⟨-, hlength, hfirst, -⟩, -⟩ := activeDescriptorView_eq_some_iff_walk.1 hv
    rcases hhead with hshort | hother
    · omega
    · exact hother hfirst
  · intro device ds active hdevice hds
    have hdrop : ∀ rest, (device ++ rest).drop 18 = rest := by
      intro rest
      rw [← hdevice, List.drop_left]
    refine ⟨?_, ?_, ?_⟩
    · intro d k hd hk hcut
      apply activeDescriptorView_of_frames
      rw [hdrop]
      exact frames_cut hds hd hk hcut
    · intro b rest hb
      apply activeDescriptorView_of_frames
      rw [hdrop]
      exact frames_short hds hb
    · intro values hvalues hbad
      have hframes : frames ((device ++ ds.flatten).drop 18) = some ds := by
        rw [hdrop]
        exact frames_eq_some_iff.2 ⟨rfl, hds⟩
      refine activeDescriptorView_of_values hframes hvalues ?_
      have hbyte : byte (device ++ ds.flatten) 17 = byte device 17 := by
        unfold byte
        rw [List.getD_eq_getElem?_getD, List.getD_eq_getElem?_getD, List.getElem?_append_left (by omega)]
      rw [hbyte]
      exact hbad

def laptopOnly : Configuration where
  own := [9, 0x02, 86, 0, 2, 1, 0, 0x80, 250]
  inner := [[9, 0x04, 0, 0, 0, 0x0E, 1, 0, 0], [13, 0x24, 1, 0x50, 0x01, 59, 0, 0, 0, 0, 0, 1, 1],
    [8, 0x24, 2, 1, 0, 2, 0, 0], [29, 0x24, 6, 4] ++ msCameraControlXu.toList ++ [2, 1, 1, 4, 0x20, 1, 0, 0, 0],
    [9, 0x24, 3, 2, 1, 1, 0, 4, 0], [9, 0x04, 1, 0, 0, 0x0E, 2, 0, 0]]
  frame := by decide
  kind := by decide
  length_ge := by decide
  named := by decide
  inners := by decide

def otherConfiguration (interfaceNumber : UInt8) : Configuration where
  own := [9, 0x02, 18, 0, 1, 2, 0, 0x80, 250]
  inner := [[9, 0x04, interfaceNumber, 0, 0, 0x0E, 1, 0, 0]]
  frame := by decide
  kind := by decide
  length_ge := by decide
  named := by decide
  inners := by
    intro d hd
    obtain rfl := List.mem_singleton.1 hd
    have hkind : (0x04 : UInt8) ≠ descDevice ∧ (0x04 : UInt8) ≠ descConfiguration := by decide
    exact
      { frame := ⟨Nat.le_of_ble_eq_true rfl, rfl⟩
        notDevice := hkind.1
        notConfiguration := hkind.2
        interface := fun _ => Nat.le_refl _ }

def twoConfigurations (interfaceNumber : UInt8) : Blob where
  device := [18, 0x01, 0, 2, 0xEF, 2, 1, 64, 0xf2, 4, 0x0c, 0xb6, 0, 0, 1, 2, 3, 2]
  before := []
  configurations := [laptopOnly, otherConfiguration interfaceNumber]
  length_device := rfl
  bLength := rfl
  kind := rfl
  befores := nofun
  distinct := by
    show [(1 : UInt8), 2].Nodup
    decide
  counted := rfl

/-- Whatever interface the second configuration has, the camera has the same extension units. -/
theorem activeDescriptorView_exact_laptop :
    CameraIdentity.extensionUnits ⟨(twoConfigurations 0).bytes, 1, 0⟩ =
        CameraIdentity.extensionUnits ⟨(twoConfigurations 7).bytes, 1, 0⟩ ∧
      activeDescriptorView ((twoConfigurations 0).bytes ++ [9, 0x02, 18]) 1 = none ∧
      activeDescriptorView laptopCamera.descriptors 1 = some laptopCamera.descriptors := by
  obtain ⟨-, hone, hsame, -, hcut⟩ := activeDescriptorView_exact
  have hsegments : ∀ interfaceNumber, Segments (twoConfigurations interfaceNumber).bytes 1
      (twoConfigurations 0).device laptopOnly.bytes := fun interfaceNumber =>
    ⟨twoConfigurations interfaceNumber, laptopOnly, List.mem_cons_self, rfl, rfl, List.append_nil _, rfl⟩
  refine ⟨(hsame _ _ _ _ _ 0 (hsegments 0) (hsegments 7)).1, ?_, ?_⟩
  · have hnone := (hcut (twoConfigurations 0).device (twoConfigurations 0).descriptors 1 rfl
      (twoConfigurations 0).isFrame).1 [9, 0x02, 18, 0, 1, 3, 0, 0x80, 250] 3 (by decide) (by decide) (by decide)
    rw [← List.append_assoc] at hnone
    exact hnone
  · have hsome : (activeDescriptorView laptopCamera.descriptors 1).isSome = true := by decide
    obtain ⟨v, hv⟩ := Option.isSome_iff_exists.1 hsome
    have heq := (hone _ _ v hv).2 (by decide)
    rw [hv, heq]

end Irlume.Uvc
