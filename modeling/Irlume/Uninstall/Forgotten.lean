import Irlume.Uninstall.Marked

/-!
# An unfinished uninstall is not forgotten

Any attempts in any processes, interleaved call by call, killed and cut off anywhere. Whether a process created
the file is learnt before it has the lock, and goes over what it reads (`forgets_between`).
-/

namespace Irlume.Uninstall

open Irlume.Lib

/-- The process that created the record does not read the mark of another in it. -/
def ReadsOwn (_ : Nat) (_ : Unit) (w : World) (op : Op) (_ : Choice) : Prop :=
  op = .read true → w.file.visible ≠ retain

instance (p : Nat) (s : Unit) (w : World) (op : Op) (c : Choice) : Decidable (ReadsOwn p s w op c) :=
  inferInstanceAs (Decidable (_ → _))

abbrev Steady {α : Type} (p : Nat) (Q : α → World → Prop) (m : Run α) (w : World) : Prop :=
  Program.Steady (Rely p) (Meets p ()) (Processes.reacts (Processes.restrict ReadsOwn World.perform) p ()) Q m w

abbrev Tried {α : Type} (p : Nat) (Q : α → World → Prop) (m : Attempt α) (w : World) : Prop :=
  Fallible.Steady (Rely p) (Meets p ()) (Processes.reacts (Processes.restrict ReadsOwn World.perform) p ()) Q
    (fun _ _ => True) m w

section

variable {α β : Type} {p : Nat} {w t : World} {Q : α → World → Prop}

/-! ## Rules -/

variable {op : Op}

theorem reacts_iff {a : op.Answer} :
    Processes.reacts (Processes.restrict ReadsOwn World.perform) p () w op a t ↔
      ∃ c, ReadsOwn p () w op c ∧ World.perform p () w op c = some (a, t) := by
  constructor
  · rintro ⟨c, hc⟩
    rw [Processes.restrict] at hc
    split at hc
    · next hreads => exact ⟨c, hreads, hc⟩
    · cases hc
  · rintro ⟨c, hreads, hc⟩
    exact ⟨c, by rw [Processes.restrict, if_pos hreads, hc]⟩

theorem steady_call {k : op.Answer → Run α}
    (h : ∀ w', Rely p w w' → Meets p () w' op ∧ ∀ a t c, ReadsOwn p () w' op c →
      World.perform p () w' op c = some (a, t) → Steady p Q (k a) t) :
    Steady p Q (call op >>= k) w := by
  intro w' hs
  obtain ⟨hmeets, hk⟩ := h w' hs
  refine ⟨hmeets, fun a t ht => ?_⟩
  obtain ⟨c, hreads, hc⟩ := reacts_iff.1 ht
  exact hk a t c hreads hc

theorem tried_ask {k : op.Answer → Attempt α}
    (h : ∀ w', Rely p w w' → Meets p () w' op ∧ ∀ a t c, ReadsOwn p () w' op c →
      World.perform p () w' op c = some (a, t) → Tried p Q (k a) t) : Tried p Q (ask op >>= k) w := by
  intro w' hs
  obtain ⟨hmeets, hk⟩ := h w' hs
  refine ⟨hmeets, fun a t ht => ?_⟩
  obtain ⟨c, hreads, hc⟩ := reacts_iff.1 ht
  exact hk a t c hreads hc

theorem tried_error {e : Text} {k : β → Attempt α} : Tried p Q (orThrow (.error e) >>= k) w :=
  fun _ _ => trivial

theorem tried_throw {e : Text} : Tried p Q (throw e : Attempt α) w := fun _ _ => trivial

theorem Tried.bind {R : β → World → Prop} {m : Attempt β} {k : β → Attempt α} (h : Tried p R m w)
    (hk : ∀ b t, R b t → Tried p Q (k b) t) : Tried p Q (m >>= k) w :=
  Fallible.Steady.bind (Rely.refl p) (fun _ _ _ _ _ => trivial) h hk

/-! ## Under the lock -/

/-- The process holds the lock and the mark of what is unfinished is kept; of the file it is known that
`P`. -/
structure Held (p : Nat) (begun : List Begun) (P : InPlaceFile → Prop) (w : World) : Prop where
  locked : Locked p w
  marked : Marked w
  begun : w.begun = begun
  file : P w.file

variable {begun : List Begun} {P P' : InPlaceFile → Prop}

theorem Held.of_rely (h : Held p begun P w) (hs : Rely p w t) : Held p begun P t := hs.locked h.locked ▸ h

theorem Held.tried_ask (h : Held p begun P w) {k : op.Answer → Attempt α} (hmeets : Meets p () w op)
    (hk : ∀ a t c, ReadsOwn p () w op c → World.perform p () w op c = some (a, t) → Marked t →
      Tried p Q (k a) t) : Tried p Q (ask op >>= k) w := by
  refine Uninstall.tried_ask fun w' hs => ?_
  obtain rfl := hs.locked h.locked
  exact ⟨hmeets, fun a t c hreads ht => hk a t c hreads ht (h.marked.call hmeets ht)⟩

theorem Held.setFile (h : Held p begun P w) {f : InPlaceFile} (hmarked : Marked { w with file := f })
    (hf : P' f) : Held p begun P' { w with file := f } :=
  ⟨⟨h.locked.entry, h.locked.lock⟩, hmarked, h.begun, hf⟩

/-- What may be written: the mark of an attempt, or where all are done, any. -/
def Writable (value : List UInt8) (begun : List Begun) : Prop :=
  value = retain ∨ ∀ a ∈ begun, a.done = true

variable {value : List UInt8}

theorem Writable.meets (h : Writable value begun) (hheld : Held p begun P w)
    {i : Nat} : Meets p () w (.write i (value.drop i)) := by
  refine ⟨hheld.locked, ?_⟩
  rcases h with rfl | hdone
  · exact .inl (List.prefix_refl _)
  · refine .inr fun ⟨a, ha, hnot⟩ => ?_
    rw [hheld.begun] at ha
    rw [hdone a ha] at hnot
    cases hnot

theorem tried_writeAll (hvalue : Writable value begun) {fuel i : Nat}
    (hi : i ≤ value.length) (hfuel : value.length - i ≤ fuel)
    (h : Held p begun (fun f => ∃ d, f.visible = value.take i ++ d) w) :
    Tried p (fun _ => Held p begun fun f => ∃ d, f.visible = value ++ d)
      (writeAll fuel i (value.drop i)) w := by
  induction fuel generalizing i w with
  | zero =>
    have hall : i = value.length := by omega
    subst hall
    rw [List.drop_length]
    rw [List.take_length] at h
    exact fun _ hs => h.of_rely hs
  | succ fuel ih =>
    cases hrest : value.drop i with
    | nil =>
      have hall : i = value.length := by
        have := List.drop_eq_nil_iff.1 hrest
        omega
      subst hall
      rw [List.take_length] at h
      exact fun _ hs => h.of_rely hs
    | cons b bs =>
      rw [← hrest]
      have hunfold : writeAll (fuel + 1) i (value.drop i) = (do
          let n ← orThrow (← ask (.write i (value.drop i)))
          if n = 0 then throw "failed to write whole buffer".toList
          else writeAll fuel (i + n) ((value.drop i).drop n)) := by
        rw [hrest]
        rfl
      rw [hunfold]
      refine h.tried_ask (hvalue.meets h) fun a t c _ ht hmarked => ?_
      obtain ⟨rfl, hne⟩ | ⟨n, hn, rfl, rfl⟩ := perform_write ht
      · cases a with
        | ok n => exact absurd rfl (hne n)
        | error e => exact tried_error
      · by_cases hzero : n = 0
        · rw [hzero]
          exact tried_throw
        · have hstep : Tried p (fun _ => Held p begun fun f => ∃ d, f.visible = value ++ d)
              (writeAll fuel (i + n) (value.drop (i + n)))
              { w with file := w.file.write i ((value.drop i).take n) } := by
            rw [List.length_drop] at hn
            refine ih (by omega) (by omega) (h.setFile hmarked ?_)
            obtain ⟨d, hd⟩ := h.file
            refine ⟨d.drop n, ?_⟩
            have hlen : (value.take i).length = i := List.length_take_of_le hi
            have hwritten := foldl_puts (value.take i) d ((value.drop i).take n)
            rw [hlen, ← hd, List.length_take_of_le (by rw [List.length_drop]; omega)] at hwritten
            rw [List.take_add]
            exact hwritten
          have hgo : (do
              let n' ← orThrow (.ok n)
              if n' = 0 then throw "failed to write whole buffer".toList
              else writeAll fuel (i + n') ((value.drop i).drop n')) =
              (writeAll fuel (i + n) (value.drop (i + n)) : Attempt Unit) := by
            show (if n = 0 then throw "failed to write whole buffer".toList
              else writeAll fuel (i + n) ((value.drop i).drop n)) = _
            rw [if_neg hzero, List.drop_drop]
          exact hgo ▸ hstep

theorem tried_write (hvalue : Writable value begun) (hlen : markAt < value.length)
    (h : Held p begun P w) :
    Tried p (fun _ => Held p begun (· = .settled value)) (Retention.write value) w := by
  unfold Retention.write
  refine h.tried_ask trivial fun a t c _ ht _ => ?_
  obtain rfl := perform_looks (by exact trivial) ht
  cases a with
  | error e => exact tried_error
  | ok a =>
    have hstart : Held p begun (fun f => ∃ d, f.visible = value.take 0 ++ d) t :=
      ⟨h.locked, h.marked, h.begun, t.file.visible, rfl⟩
    refine (tried_writeAll hvalue (Nat.zero_le _) (Nat.sub_le _ _) hstart).bind fun _ t h => ?_
    refine h.tried_ask ⟨h.locked, hlen⟩ fun a t' c _ ht hmarked => ?_
    obtain ⟨-, hne⟩ | rfl := perform_setLen ht
    · cases a with
      | ok a => exact absurd rfl hne
      | error e => exact tried_error
    · cases a with
      | error e => exact tried_error
      | ok a =>
        have hcut : Held p begun (fun f => f.visible = value)
            { t with file := t.file.resize value.length } := by
          refine h.setFile hmarked ?_
          obtain ⟨d, hd⟩ := h.file
          have hcut : (FileEdit.resize value.length).apply (value ++ d) = value := by
            rw [apply_resize (by simp), List.take_left]
          rw [InPlaceFile.resize, InPlaceFile.change, hd]
          exact hcut
        refine hcut.tried_ask hcut.locked fun a t' c _ ht hmarked => ?_
        obtain ⟨-, hne⟩ | rfl := perform_sync ht
        · cases a with
          | ok a => exact absurd rfl hne
          | error e => exact fun _ _ => trivial
        · cases a with
          | error e => exact fun _ _ => trivial
          | ok a =>
            have hsettled : (t.file.resize value.length).sync = .settled value := by
              rw [InPlaceFile.sync, hcut.file]
            have hsynced : Held p begun (· = .settled value)
                { t with file := (t.file.resize value.length).sync } := hcut.setFile hmarked hsettled
            exact fun _ hs => hsynced.of_rely hs

/-- What holds where `begin` has succeeded. -/
structure Established (p : Nat) (r : Retention) (w : World) : Prop where
  held : Held p w.begun (· = .settled retain) w
  entryDurable : w.entryDurable = true
  certain : r.priorUncertain = false → ∀ a ∈ w.begun, a.done = true

theorem take_eq_of_length {c value : List UInt8} {n : Nat} (h : value = c.take n) (hlen : value.length < n) :
    c = value := by
  rw [h, List.length_take] at hlen
  rw [h, List.take_of_length_le (by omega)]

theorem not_isMarked_of_read {previous : List UInt8} {fresh : Bool} (hread : previous = w.file.visible.take 128)
    (hown : fresh = true → w.file.visible ≠ retain)
    (hknown : previous = [] ∨ previous = retain ∨ previous = clean)
    (hcertain : (!fresh && decide (previous ≠ clean)) = false) : ¬ IsMarked w.file.visible := by
  have hlen : previous.length < 128 := by
    rcases hknown with rfl | rfl | rfl <;> decide +kernel
  rw [take_eq_of_length hread hlen] at hown ⊢
  rcases hknown with rfl | rfl | rfl
  · exact not_isMarked_nil
  · cases fresh with
    | true => exact absurd rfl (hown rfl)
    | false => revert hcertain; decide +kernel
  · exact not_isMarked_clean

theorem tried_openRecord (owner : Nat) (hw : Marked w) :
    Tried p (fun _ t => Marked t ∧ t.entry = true) (Retention.openRecord owner) w := by
  unfold Retention.openRecord
  refine tried_ask fun w hs => ⟨trivial, fun a t c _ ht => ?_⟩
  have hmeets : Meets p () w .createNew := trivial
  have hmarked := (hs.marked hw).call hmeets ht
  obtain ⟨rfl, hexists, hne⟩ | ⟨-, rfl, rfl⟩ := perform_createNew ht
  · match a with
    | .ok () => exact absurd rfl hne
    | .error (.other e) => exact tried_throw
    | .error .alreadyExists =>
      have hentry := hexists rfl
      refine tried_ask fun w hs => ⟨trivial, fun a t c _ ht => ?_⟩
      obtain rfl := perform_looks (by exact trivial) ht
      cases a with
      | error e => exact tried_error
      | ok seen =>
        show Tried p _ (if _ then throw _ else _) t
        split
        · exact tried_throw
        · refine tried_ask fun w' hs' => ⟨trivial, fun a t' c _ ht => ?_⟩
          obtain rfl := perform_looks (by exact trivial) ht
          cases a with
          | error e => exact tried_error
          | ok a =>
            have hs := hs.trans hs'
            exact fun _ hs'' => ⟨(hs.trans hs'').marked hmarked, (hs.trans hs'').entry hentry⟩
  · exact fun _ hs => ⟨hs.marked hmarked, hs.entry rfl⟩

variable {r : Retention}

theorem Established.of_rely (h : Established p r w) (hs : Rely p w t) :
    Established p r t := hs.locked h.held.locked ▸ h

theorem tried_establish (owner : Nat) (hw : Marked w) :
    Tried p (fun r => Established p r) (Retention.establish owner) w := by
  unfold Retention.establish
  refine tried_ask fun w hs => ⟨trivial, fun a t c _ ht => ?_⟩
  obtain rfl := perform_looks (by exact trivial) ht
  cases a with
  | error e => exact tried_error
  | ok seen =>
    show Tried p _ (if _ then throw _ else _) t
    split
    · exact tried_throw
    refine (tried_openRecord owner (hs.marked hw)).bind fun fresh t ⟨hmarked, hentry⟩ => ?_
    refine tried_ask fun w hs => ⟨hs.entry hentry, fun a t' c _ ht => ?_⟩
    have hmeets : Meets p () w .flock := hs.entry hentry
    have hmarked := (hs.marked hmarked).call hmeets ht
    obtain ⟨-, hne⟩ | ⟨-, rfl, rfl⟩ := perform_flock ht
    · cases a with
      | ok a => exact absurd rfl hne
      | error e => exact tried_error
    have hheld : Held p w.begun (fun _ => True) { w with lock := some p } :=
      ⟨⟨hs.entry hentry, rfl⟩, hmarked, rfl, trivial⟩
    clear hs hmarked hentry ht
    generalize { w with lock := some p } = w' at hheld
    refine hheld.tried_ask hheld.locked fun a t c hown ht _ => ?_
    obtain ⟨rfl, hread⟩ := perform_read ht
    cases a with
    | error e => exact tried_error
    | ok previous =>
      show Tried p _ (if _ then throw _ else _) t
      split
      · exact tried_throw
      next hknown =>
      simp only [Bool.and_eq_true, decide_eq_true_eq, not_and, not_not] at hknown
      have hknown : previous = [] ∨ previous = retain ∨ previous = clean := by
        by_cases hnil : previous = []
        · exact .inl hnil
        · by_cases hretain : previous = retain
          · exact .inr (.inl hretain)
          · exact .inr (.inr (hknown ⟨hnil, hretain⟩))
      have hcertain : (!fresh && decide (previous ≠ clean)) = false → ∀ a ∈ w.begun, a.done = true := by
        intro hcertain
        have hunmarked := not_isMarked_of_read (hread previous rfl) (fun hf => hown (by rw [hf])) hknown hcertain
        rw [← hheld.begun]
        exact World.done_of_not_unfinished fun hun => hunmarked (hheld.marked.file hun).visible
      refine (tried_write (.inl rfl) (by decide +kernel) hheld).bind fun _ t hheld => ?_
      refine hheld.tried_ask hheld.locked fun a t' c _ ht hmarked => ?_
      obtain ⟨-, hne⟩ | rfl := perform_syncParent ht
      · cases a with
        | ok a => exact absurd rfl hne
        | error e => exact tried_error
      · cases a with
        | error e => exact tried_error
        | ok a =>
          have hdone : Established p { priorUncertain := !fresh && previous ≠ clean, state := .retained }
              { t with entryDurable := t.entry } := by
            refine ⟨⟨⟨hheld.locked.entry, hheld.locked.lock⟩, hmarked, rfl, hheld.file⟩,
              hheld.locked.entry, fun hu => ?_⟩
            exact hheld.begun ▸ hcertain hu
          exact fun _ hs => hdone.of_rely hs

theorem tried_begin (owner : Nat) (hw : Marked w) :
    Tried p (fun r => Established p r) (Retention.begin owner) w := by
  refine Program.Steady.bind (Rely.refl p) (tried_establish owner hw) fun result t h => ?_
  cases result with
  | error e => exact fun _ _ => trivial
  | ok r => exact fun _ hs => Established.of_rely h hs

/-! ## An attempt -/

theorem Held.steady_call (h : Held p begun P w) {k : op.Answer → Run α} (hmeets : Meets p () w op)
    (hk : ∀ a t c, World.perform p () w op c = some (a, t) → Marked t → Steady p Q (k a) t) :
    Steady p Q (call op >>= k) w := by
  refine Uninstall.steady_call fun w' hs => ?_
  obtain rfl := hs.locked h.locked
  exact ⟨hmeets, fun a t c _ ht => hk a t c ht (h.marked.call hmeets ht)⟩

theorem steady_complete {n : Nat} (hr : r.priorUncertain = false)
    (hdone : ∀ a ∈ begun, a.done = true) (hn : n < begun.length) (h : Held p begun P w) :
    Steady p (fun _ _ => True) (do
      let (result, retained) ← r.complete
      match result with
      | .error _ => pure retained
      | .ok () =>
        call (.evict n)
        pure retained) w := by
  have hcomplete : Steady p (fun x t => x.1 = .ok () → Held p begun (· = .settled clean) t) r.complete w := by
    rw [Retention.complete, if_neg (by rw [hr]; decide)]
    refine Program.Steady.bind (Rely.refl p) (tried_write (.inr hdone) (by decide +kernel) h) ?_
    intro result t ht
    cases result with
    | error e => exact fun _ _ => nofun
    | ok a => exact fun _ hs _ => Held.of_rely ht hs
  refine Program.Steady.bind (Rely.refl p) hcomplete fun ⟨result, r'⟩ t ht => ?_
  cases result with
  | error e => exact fun _ _ => trivial
  | ok a =>
    have hheld := ht rfl
    refine hheld.steady_call ⟨hheld.locked, begun[n], ?_, hdone _ (List.getElem_mem hn)⟩
      fun _ _ _ _ _ => fun _ _ => trivial
    rw [hheld.begun, List.getElem?_eq_getElem hn]

theorem steady_performHeldTeardown {before : List Begun}
    (hcertain : r.priorUncertain = false → ∀ a ∈ before, a.done = true)
    (h : Held p (before ++ [⟨r.priorUncertain, false, false⟩]) P w) :
    Steady p (fun _ _ => True) (performHeldTeardown before.length r) w := by
  unfold performHeldTeardown Retention.requireFresh
  cases hr : r.priorUncertain with
  | true => exact fun _ _ => trivial
  | false =>
    rw [hr] at h
    refine h.steady_call trivial fun a t c ht _ => ?_
    obtain rfl := perform_looks (by exact trivial) ht
    cases a with
    | none => exact fun _ _ => trivial
    | some swept =>
      show Steady p _ (if _ then _ else _) t
      split
      · refine h.steady_call trivial fun a s c ht _ => ?_
        obtain rfl := perform_looks (by exact trivial) ht
        cases a with
        | error e => exact fun _ _ => trivial
        | ok a =>
          have hlast : s.begun[before.length]? = some ⟨false, false, false⟩ := by
            rw [h.begun]
            exact List.getElem?_concat_length
          refine h.steady_call ⟨h.locked, _, hlast, rfl⟩ fun a t c ht hmarked => ?_
          obtain rfl := perform_completing ht
          have hheld : Held p (before ++ [⟨false, true, false⟩]) P
              { s with begun := s.begun.modify before.length fun a => { a with completing := true } } := by
            refine ⟨⟨h.locked.entry, h.locked.lock⟩, hmarked, ?_, h.file⟩
            rw [h.begun, List.modify_eq_take_cons_drop (by simp)]
            simp
          refine steady_complete hr (fun a ha => ?_) (by simp) hheld
          rcases List.mem_append.1 ha with ha | ha
          · exact hcertain hr a ha
          · rw [List.mem_singleton.1 ha]
            rfl
      · exact fun _ _ => trivial

theorem steady_drop : Steady p (fun _ _ => True) (call .drop) w :=
  fun _ _ => ⟨trivial, fun _ _ _ _ _ => trivial⟩

theorem steady_performTeardown (hw : Marked w) : Steady p (fun _ _ => True) performTeardown w := by
  refine Program.Steady.bind (Rely.refl p) (tried_begin 0 hw) fun result t h => ?_
  cases result with
  | error e => exact steady_drop
  | ok r =>
    have hest : Established p r t := h
    refine hest.held.steady_call ⟨hest.held.locked, hest.held.file, hest.entryDurable, fun hu => ?_⟩
      fun n t' c ht hmarked => ?_
    · exact fun ⟨a, ha, hnot⟩ => by simp [hest.certain hu a ha] at hnot
    · obtain ⟨rfl, rfl⟩ := perform_begun ht
      have hheld : Held p (t.begun ++ [⟨r.priorUncertain, false, false⟩]) (· = .settled retain)
          { t with begun := t.begun ++ [⟨r.priorUncertain, false, false⟩] } :=
        ⟨⟨hest.held.locked.entry, hest.held.locked.lock⟩, hmarked, rfl, hest.held.file⟩
      refine Program.Steady.bind (Rely.refl p) (steady_performHeldTeardown hest.certain hheld) ?_
      exact fun _ _ _ => steady_drop

end

/-! ## All of them -/

theorem marked_noFile : Marked noFile := by
  have hno : ¬ noFile.Unfinished := fun ⟨_, ha, _⟩ => by cases ha
  have horderly : Orderly noFile.begun := ⟨nofun, nofun⟩
  exact ⟨fun h => absurd h hno, fun h => absurd h hno, fun h => absurd h hno, horderly⟩

theorem Marked.powerLoss {w : World} (h : Marked w) (loss : Loss) : Marked (w.powerLoss loss) := by
  have hentry : w.Unfinished → (w.entry && (w.entryDurable || loss.entryKept)) = true := by
    intro hun
    rw [h.entry hun, h.entryDurable hun]
    rfl
  refine ⟨hentry, hentry, fun hun => ?_, h.orderly⟩
  have hfile : (w.powerLoss loss).file = w.file.powerLoss loss.kept := if_pos (hentry hun)
  rw [hfile]
  exact (h.file hun).powerLoss loss.kept

theorem Rely.leave {p q : Nat} (hq : q ≠ p) (w : World) : Rely q w (w.leave p) := by
  refine ⟨fun h => h.setLock _, id, fun hlocked => ?_⟩
  rw [World.leave, hlocked.lock, Option.filter_some, if_pos (by simpa using hq), ← hlocked.lock]

theorem compatible : Processes.Compatible (fun _ : Unit => performTeardown)
    (Processes.restrict ReadsOwn World.perform) World.leave (fun _ => True) Marked (fun p _ => Rely p) Meets where
  refl p _ := Rely.refl p
  trans := Rely.trans
  steady _ _ _ _ := steady_performTeardown
  call := by
    intro p s w op c a t _ hw hmeets ht
    obtain ⟨c, -, ht⟩ := reacts_iff.1 ⟨c, ht⟩
    exact ⟨hw.call hmeets ht, fun q _ hq => .call hq hmeets ht⟩
  leave {p w} hw := ⟨hw.setLock _, fun q _ hq => .leave hq w⟩

/-- **Nothing is forgotten** where the creator of the record reads no other's mark: an attempt that begins
with the record unmarked is one before which all are done, and only such an attempt evicts. -/
theorem teardown_never_forgotten {es : List Event}
    (hown : ∀ x ∈ steps step (Processes.idle noFile) es, Processes.Answers ReadsOwn x.1 x.2) :
    ∀ m ∈ states step (Processes.idle noFile) es, ∀ (i : Nat) (a : Begun), m.world.begun[i]? = some a →
      (a.uncertain = false → ∀ (j : Nat) (b : Begun), j < i → m.world.begun[j]? = some b → b.done = true) ∧
      (a.evicted = true → a.done = true ∧
        ∀ (j : Nat) (b : Begun), j < i → m.world.begun[j]? = some b → b.done = true) := by
  intro m hm i a ha
  have hmarked := (Processes.states_soundWith compatible (fun _ loss h => Marked.powerLoss h loss)
    marked_noFile hown m hm).world
  have hcertain := hmarked.orderly.certain i a ha
  refine ⟨hcertain, fun hevicted => ?_⟩
  have hdone := hmarked.orderly.evicted a (List.mem_of_getElem? ha) hevicted
  have hu : a.uncertain = false := by
    rw [Begun.done, Bool.and_eq_true] at hdone
    simpa using hdone.2
  exact ⟨hdone, hcertain hu⟩

/-! ## Two attempts -/

def seenParent : Metadata := { isFile := false, uid := 0, mode := 0o755, nlink := 2 }

def seenRecord : Metadata := { isFile := true, uid := 0, mode := 0o600, nlink := 1 }

def answers (p : Nat) (cs : List Choice) : List Event := cs.map fun c => .process (.answer p c)

def creates (p : Nat) : List Event := .process (.start p ()) :: answers p [.sees seenParent, .works]

def opens (p : Nat) : List Event :=
  .process (.start p ()) :: answers p [.sees seenParent, .works, .sees seenRecord, .works]

/-- It locks it, reads it, marks it, and its `begin` returns. -/
def locks (p : Nat) : List Event := answers p (List.replicate 8 .works)

def evicts (p : Nat) : List Event :=
  answers p (.finds (some ⟨true, false, .ok []⟩) :: List.replicate 8 .works)

def oneByOne : List Event := creates 0 ++ locks 0 ++ evicts 0 ++ opens 1 ++ locks 1

set_option maxRecDepth 100000 in
/-- Two attempts, one after the other. -/
theorem teardown_never_forgotten_oneByOne :
    ∃ m, run step (Processes.idle noFile) oneByOne = some m ∧
      m.world.begun = [⟨false, true, true⟩, ⟨false, false, false⟩] ∧
      ∀ (j : Nat) (b : Begun), j < 1 → m.world.begun[j]? = some b → b.done = true := by
  have hruns : (run step (Processes.idle noFile) oneByOne).map (·.world.begun) =
      some [⟨false, true, true⟩, ⟨false, false, false⟩] := by decide +kernel
  obtain ⟨m, hm, hbegun⟩ := Option.map_eq_some_iff.1 hruns
  refine ⟨m, hm, hbegun, ?_⟩
  have hown : ∀ x ∈ steps step (Processes.idle noFile) oneByOne, Processes.Answers ReadsOwn x.1 x.2 := by
    decide +kernel
  exact (teardown_never_forgotten hown m (end_mem_states hm) 1 _ (by rw [hbegun]; rfl)).1 rfl

/-- Between the creation of the record and its lock, another process finds it empty, marks it, and is gone;
the creator reads its mark, and takes the record for its own. -/
def overtaken : List Event := creates 0 ++ opens 1 ++ locks 1 ++ .process (.kill 1) :: locks 0 ++ evicts 0

set_option maxRecDepth 100000 in
/-- **Forgotten**: the second attempt begins with the record unmarked and evicts the keys, and the first is
not done. -/
theorem forgets_between :
    (∃ m, run step (Processes.idle noFile) overtaken = some m ∧
      m.world.begun = [⟨true, false, false⟩, ⟨false, true, true⟩]) ∧
    ¬ ∀ (es : List Event), ∀ m ∈ states step (Processes.idle noFile) es, ∀ (i : Nat) (a : Begun),
      m.world.begun[i]? = some a → a.uncertain = false →
        ∀ (j : Nat) (b : Begun), j < i → m.world.begun[j]? = some b → b.done = true := by
  have hruns : (run step (Processes.idle noFile) overtaken).map (·.world.begun) =
      some [⟨true, false, false⟩, ⟨false, true, true⟩] := by decide +kernel
  obtain ⟨m, hm, hbegun⟩ := Option.map_eq_some_iff.1 hruns
  refine ⟨⟨m, hm, hbegun⟩, fun h => ?_⟩
  have hdone := h overtaken m (end_mem_states hm) 1 ⟨false, true, true⟩ (by rw [hbegun]; rfl) rfl 0
    ⟨true, false, false⟩ (by omega) (by rw [hbegun]; rfl)
  cases hdone

end Irlume.Uninstall
