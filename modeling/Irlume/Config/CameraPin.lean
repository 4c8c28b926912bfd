import Irlume.Config.Readers

/-!
# The strict and the lenient reader of `cameras.conf`

The lenient readers take the first line of a key with a value, whatever else the file holds; the strict one
refuses a file where a key has two lines. The pair a writer publishes is the one the strict reader yields
afterwards.
-/

namespace Irlume.Config

open Irlume.Lib

structure CameraPin where
  rgb : Option Text
  ir : Option Text
  rgbId : Option Text
  irId : Option Text

/-- `read_camera_pin`. -/
def readCameraPin (read : Except IoError Text) : CameraPin :=
  let vals := readKvs read ["rgb", "ir", "rgb_id", "ir_id"]
  { rgb := vals[0]?.join, ir := vals[1]?.join, rgbId := vals[2]?.join, irId := vals[3]?.join }

/-- The updates of `write_camera_pin`. -/
def pinUpdates (rgb ir rgbId irId : Text) : List (Text × Text) :=
  [("rgb", rgb), ("ir", ir), ("rgb_id", rgbId), ("ir_id", irId)]

def CameraSelectionObservation.pair : CameraSelectionObservation → Option PinnedPair
  | .pinned pair _ => some pair
  | .automatic retained => retained
  | _ => none

def PinnedPair.pin (p : PinnedPair) : CameraPin :=
  { rgb := some p.rgb, ir := some p.ir, rgbId := p.rgbId, irId := p.irId }

def notEmpty (value : Text) : Option Text := if value = [] then none else some value

/-! ## Reading -/

variable {text : Text}

/-- In a file the strict reader takes, both readers find the same value of a key. -/
theorem value_eq_found {key : SelectionKey} (h : Clean key (lines text)) :
    (scan {} (lines text) 0).value key = (scanKv text key.name).found := by
  rw [scanKv_eq, found_kvLineOf]
  unfold Scan.value valuesOf
  rw [scan_seen]
  rcases h with hnone | ⟨l, hone, -⟩
  · rw [hnone]
    rfl
  · rw [hone]
    by_cases hvalue : lineValue l = [] <;> simp [hvalue, Option.filter]

theorem readCameraPin_eq (text : Text) : readCameraPin (.ok text) =
    { rgb := (scanKv text SelectionKey.rgb.name).found
      ir := (scanKv text SelectionKey.ir.name).found
      rgbId := (scanKv text SelectionKey.rgbId.name).found
      irId := (scanKv text SelectionKey.irId.name).found } := by
  have hplace : ∀ (i : Nat) (key : SelectionKey),
      (["rgb", "ir", "rgb_id", "ir_id"] : List Text).findIdx? (fun want => want = key.name) = some i →
        ((readKvs (.ok text) ["rgb", "ir", "rgb_id", "ir_id"])[i]?).join = (scanKv text key.name).found := by
    intro i key hi
    rw [getElem?_readKvs text (getElem?_of_findIdx? hi), if_pos hi]
    rfl
  unfold readCameraPin
  dsimp only
  rw [hplace 0 .rgb (by decide), hplace 1 .ir (by decide), hplace 2 .rgbId (by decide), hplace 3 .irId (by decide)]

theorem readCameraPin_of_clean (h : ∀ key, Clean key (lines text)) : readCameraPin (.ok text) =
    { rgb := (scan {} (lines text) 0).value .rgb
      ir := (scan {} (lines text) 0).value .ir
      rgbId := (scan {} (lines text) 0).value .rgbId
      irId := (scan {} (lines text) 0).value .irId } := by
  rw [readCameraPin_eq, value_eq_found (h _), value_eq_found (h _), value_eq_found (h _), value_eq_found (h _)]

theorem pair_selection {s : Scan} (h : s.selection.isMalformed = false) : s.selection.pair = s.pair := by
  unfold Scan.selection at h ⊢
  cases hmode : s.seen .mode with
  | none => cases hpair : s.pair <;> rfl
  | some m =>
    obtain ⟨line, mode⟩ := m
    rw [hmode] at h
    dsimp only at h ⊢
    by_cases hauto : mode = "automatic".toList
    · rw [if_pos hauto]
      rfl
    · rw [if_neg hauto] at h ⊢
      cases hpair : s.pair with
      | some pair => rfl
      | none =>
        rw [hpair] at h
        cases h

section

variable (h : (parseCameraConf text).selection.isMalformed = false)

include h

theorem pair_parse :
    (parseCameraConf text).selection.pair = (scan {} (lines text) 0).pair := by
  have hwell := wellFormed_of_parse h
  rw [hwell.parse]
  exact pair_selection hwell.selection

theorem readCameraPin_of_pair {pair : PinnedPair}
    (hpair : (parseCameraConf text).selection.pair = some pair) : readCameraPin (.ok text) = pair.pin := by
  rw [pair_parse h] at hpair
  rw [readCameraPin_of_clean (wellFormed_of_parse h).clean]
  unfold Scan.pair at hpair
  split at hpair
  · next rgb ir hrgb hir =>
    cases hpair
    rw [hrgb, hir]
    rfl
  · cases hpair

theorem readCameraPin_of_no_pair
    (hpair : (parseCameraConf text).selection.pair = none) :
    (readCameraPin (.ok text)).rgb = none ∨ (readCameraPin (.ok text)).ir = none := by
  rw [pair_parse h] at hpair
  rw [readCameraPin_of_clean (wellFormed_of_parse h).clean]
  dsimp only
  unfold Scan.pair at hpair
  split at hpair
  · cases hpair
  · next hnot =>
    cases hrgb : (scan {} (lines text) 0).value .rgb with
    | none => exact .inl rfl
    | some rgb =>
      cases hir : (scan {} (lines text) 0).value .ir with
      | none => exact .inr rfl
      | some ir => exact absurd hir (hnot rgb ir hrgb)

end

/-! ## Writing -/

section Written

variable {rgb ir rgbId irId : Text}

theorem keys_pinUpdates : (pinUpdates rgb ir rgbId irId).map Prod.fst =
    [SelectionKey.rgb.name, SelectionKey.ir.name, SelectionKey.rgbId.name, SelectionKey.irId.name] := rfl

theorem nodup_pinUpdates : ((pinUpdates rgb ir rgbId irId).map Prod.fst).Nodup := by
  rw [keys_pinUpdates]
  decide

variable {key : SelectionKey}

theorem valueAfter_of_mem {value : Text} (h : (key.name, value) ∈ pinUpdates rgb ir rgbId irId) :
    valueAfter text (pinUpdates rgb ir rgbId irId) [] key = some value := by
  obtain ⟨idx, hplace⟩ := setPlace_of_mem nodup_pinUpdates h
  unfold valueAfter
  rw [hplace]

theorem valueAfter_of_not_mem (h : key.name ∉ (pinUpdates rgb ir rgbId irId).map Prod.fst) :
    valueAfter text (pinUpdates rgb ir rgbId irId) [] key = ((scan {} (lines text) 0).seen key).map Prod.snd := by
  unfold valueAfter
  rw [setPlace_eq_none_iff.2 h]
  rfl

theorem selection_of_pair {s : Scan} {pair : PinnedPair} (h : s.pair = some pair) :
    s.selection.isMalformed = false := by
  unfold Scan.selection
  rw [h]
  cases s.seen .mode with
  | none => rfl
  | some m =>
    dsimp only
    split <;> rfl

theorem value_eq_notEmpty {s : Scan} {value : Text}
    (h : (s.seen key).map Prod.snd = some value) : s.value key = notEmpty value := by
  unfold Scan.value notEmpty
  rw [h]
  by_cases hempty : value = [] <;> simp [hempty, Option.filter]

theorem parse_pinUpdates {path : Text} (hold : (parseCameraConf text).selection.isMalformed = false)
    (hcheck : checkUpdates path (pinUpdates rgb ir rgbId irId) = .ok ()) (hrgb : rgb ≠ []) (hir : ir ≠ []) :
    let out := parseCameraConf (applyKvUpdates text (pinUpdates rgb ir rgbId irId))
    out.selection.isMalformed = false ∧
      out.selection.pair = some { rgb, ir, rgbId := notEmpty rgbId, irId := notEmpty irId } := by
  have hwell := wellFormed_of_parse hold
  have hset := checkUpdates_ok_iff.1 hcheck
  have hmode : SelectionKey.mode.name ∉ (pinUpdates rgb ir rgbId irId).map Prod.fst := by
    rw [keys_pinUpdates]
    decide
  obtain ⟨hclean, hseen⟩ := @scan_applyKvChanges text _ [] hwell.clean hset nodup_pinUpdates hmode
  have hvalue : ∀ (key : SelectionKey) value, (key.name, value) ∈ pinUpdates rgb ir rgbId irId →
      (scan {} (lines (applyKvUpdates text (pinUpdates rgb ir rgbId irId))) 0).value key = notEmpty value := by
    intro key value hmem
    exact value_eq_notEmpty ((hseen key).trans (valueAfter_of_mem hmem))
  have hpair : (scan {} (lines (applyKvUpdates text (pinUpdates rgb ir rgbId irId))) 0).pair =
      some { rgb, ir, rgbId := notEmpty rgbId, irId := notEmpty irId } := by
    unfold Scan.pair
    rw [hvalue .rgb rgb (.head _), hvalue .ir ir (.tail _ (.head _)), hvalue .rgbId rgbId (.tail _ (.tail _ (.head _))),
      hvalue .irId irId (.tail _ (.tail _ (.tail _ (.head _))))]
    simp [notEmpty, hrgb, hir]
  have hkept : ∀ key ∈ splitKeys,
      ((scan {} (lines (applyKvUpdates text (pinUpdates rgb ir rgbId irId))) 0).seen key).map Prod.snd =
        ((scan {} (lines text) 0).seen key).map Prod.snd := by
    intro key hkey
    refine (hseen key).trans (valueAfter_of_not_mem ?_)
    rw [keys_pinUpdates]
    revert key
    decide
  have hsplit : (scan {} (lines (applyKvUpdates text (pinUpdates rgb ir rgbId irId))) 0).split =
      (scan {} (lines text) 0).split := by
    unfold Scan.split
    rw [hkept _ (by decide), hkept _ (by decide), hkept _ (by decide)]
  have hout : WellFormed (applyKvUpdates text (pinUpdates rgb ir rgbId irId)) :=
    ⟨hclean, selection_of_pair hpair, by rw [hsplit]; exact hwell.split⟩
  have hnew : (parseCameraConf (applyKvUpdates text (pinUpdates rgb ir rgbId irId))).selection.isMalformed = false := by
    rw [hout.parse]
    exact hout.selection
  exact ⟨hnew, (pair_parse hnew).trans hpair⟩

end Written

/-- **The strict and the lenient reader agree.** For every text, a pair the strict reader yields, in use or retained,
is the one the lenient reader finds; where it yields none of a file it takes, the lenient one does not find both `rgb`
and `ir`. After a write of values that are accepted, `rgb` and `ir` not empty, to a file it takes, it yields the pair
that was written. -/
theorem readers_agree :
    (∀ text pair explicit, (parseCameraConf text).selection = .pinned pair explicit →
        readCameraPin (.ok text) = pair.pin) ∧
      (∀ text pair, (parseCameraConf text).selection = .automatic (some pair) →
        readCameraPin (.ok text) = pair.pin) ∧
      (∀ text, (parseCameraConf text).selection = .fresh ∨ (parseCameraConf text).selection = .automatic none →
        (readCameraPin (.ok text)).rgb = none ∨ (readCameraPin (.ok text)).ir = none) ∧
      ∀ path text rgb ir rgbId irId, (parseCameraConf text).selection.isMalformed = false →
        checkUpdates path (pinUpdates rgb ir rgbId irId) = .ok () → rgb ≠ [] → ir ≠ [] →
          let out := parseCameraConf (applyKvUpdates text (pinUpdates rgb ir rgbId irId))
          out.selection.isMalformed = false ∧
            out.selection.pair = some { rgb, ir, rgbId := notEmpty rgbId, irId := notEmpty irId } := by
  refine ⟨?_, ?_, ?_, ?_⟩
  · intro text pair explicit h
    exact readCameraPin_of_pair (by rw [h]; rfl) (by rw [h]; rfl)
  · intro text pair h
    exact readCameraPin_of_pair (by rw [h]; rfl) (by rw [h]; rfl)
  · rintro text (h | h)
    · exact readCameraPin_of_no_pair (by rw [h]; rfl) (by rw [h]; rfl)
    · exact readCameraPin_of_no_pair (by rw [h]; rfl) (by rw [h]; rfl)
  · intro path text rgb ir rgbId irId hold hcheck hrgb hir
    exact parse_pinUpdates hold hcheck hrgb hir

def retainedText : Text := "# cameras\nmode=automatic\n rgb = /dev/video0 \nir=/dev/video2\nrgb_id=\n"

/-- A retained pair, and another one written over it. -/
theorem readers_agree_retained :
    readCameraPin (.ok retainedText) =
        { rgb := some ("/dev/video0" : Text), ir := some ("/dev/video2" : Text), rgbId := none, irId := none } ∧
      ((readCameraPin (.ok [])).rgb = none ∨ (readCameraPin (.ok [])).ir = none) ∧
      (parseCameraConf (applyKvUpdates retainedText (pinUpdates "a" "b" "c" ""))).selection.pair =
        some { rgb := "a", ir := "b", rgbId := some ("c" : Text), irId := none } := by
  have hretained : (parseCameraConf retainedText).selection =
      .automatic (some { rgb := "/dev/video0", ir := "/dev/video2", rgbId := none, irId := none }) := by decide +kernel
  have hcheck : checkUpdates [] (pinUpdates "a" "b" "c" "") = .ok () := by decide
  refine ⟨readers_agree.2.1 _ _ hretained, readers_agree.2.2.1 [] (.inl (by decide)), ?_⟩
  exact (readers_agree.2.2.2 [] retainedText "a" "b" "c" "" (by rw [hretained]; rfl) hcheck (by decide) (by decide)).2

/-- An empty path is accepted, and a pinned mode without a pair is not taken. -/
theorem not_readers_agree_empty : ¬ ∀ path text rgb ir rgbId irId, (parseCameraConf text).selection.isMalformed = false →
    checkUpdates path (pinUpdates rgb ir rgbId irId) = .ok () →
      let out := parseCameraConf (applyKvUpdates text (pinUpdates rgb ir rgbId irId))
      out.selection.isMalformed = false ∧
        out.selection.pair = some { rgb, ir, rgbId := notEmpty rgbId, irId := notEmpty irId } := by
  intro h
  have hout := h [] ("mode=pinned\nrgb=a\nir=b\n" : Text) [] "b" [] [] (by decide +kernel) (by decide +kernel)
  exact absurd hout.1 (by decide +kernel)

end Irlume.Config
