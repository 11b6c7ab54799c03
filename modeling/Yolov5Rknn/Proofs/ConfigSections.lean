import Yolov5Rknn.TransCoderConfig
import Yolov5Rknn.Proofs.ReaderValues

/-! Which cameras a file configures, and what `init` makes of any configuration: the sections
of the loop are those with a device, whatever else the file holds. -/

namespace Yolov5Rknn.TransCoderConfig
open Ini

variable {Double Float : Type} {floats : Floats Double Float} {config : Config Float} {stream : List UInt8}

/-! ### Bounds -/

def Config.ints (config : Config Float) : List Int :=
  [config.width, config.height, config.fps, config.fixQp, config.rknnThread, config.dmaBuffers, config.trackBuffer,
    config.reidFeatureDim, config.reidInterval, config.reidCpuId, config.reidNpuCore]

/-- A number fits into `int`. -/
def Fits (n : Int) : Prop := -2147483648 ≤ n ∧ n < 2147483648

def Config.InRange (config : Config Float) : Prop := ∀ n ∈ config.ints, Fits n

/-- What `init` may rely on once it has settled the configuration. -/
structure Config.Usable (config : Config Float) : Prop where
  inRange : config.InRange
  positive : 0 < config.width ∧ 0 < config.height ∧ 0 < config.fps ∧ 0 < config.fixQp
  threads : 1 ≤ config.rknnThread ∧ config.rknnThread ≤ 6
  buffers : 2 ≤ config.dmaBuffers
  tracking : 1 ≤ config.trackBuffer ∧ 1 ≤ config.reidFeatureDim ∧ 1 ≤ config.reidInterval
  named : config.deviceName ≠ [] ∧ config.streamName ≠ [] ∧ config.dmaHeap ≠ []
  models : config.trackerType ≠ [] ∧ config.reidModelPath ≠ []

theorem toInt_fits (n : Int) : Fits (toInt n) := by
  have lower := Int.le_bmod (x := n) (m := 4294967296) (by decide)
  have upper := Int.bmod_lt (x := n) (m := 4294967296) (by decide)
  unfold Fits toInt
  omega

theorem Config.inRange_iff : config.InRange ↔
    Fits config.width ∧ Fits config.height ∧ Fits config.fps ∧ Fits config.fixQp ∧ Fits config.rknnThread ∧
      Fits config.dmaBuffers ∧ Fits config.trackBuffer ∧ Fits config.reidFeatureDim ∧ Fits config.reidInterval ∧
      Fits config.reidCpuId ∧ Fits config.reidNpuCore := by
  simp only [InRange, ints, List.forall_mem_cons, List.not_mem_nil, false_imp_iff, implies_true, and_true]

theorem filled {text other : List UInt8} (some : other ≠ []) : (if text.isEmpty then other else text) ≠ [] := by
  cases text with
  | nil => exact some
  | cons c rest => exact List.cons_ne_nil c rest

theorem Config.settle_usable (inRange : config.InRange) : config.settle.Usable where
  inRange := by
    rw [inRange_iff] at inRange ⊢
    obtain ⟨width, height, fps, fixQp, rknnThread, dmaBuffers, trackBuffer, featureDim, interval, cpuId, npuCore⟩ :=
      inRange
    simp only [settle, Fits] at *
    refine ⟨?_, ?_, ?_, ?_, ?_, ?_, ?_, ?_, ?_, cpuId, npuCore⟩
    all_goals first | (split <;> omega) | omega
  positive := by
    simp only [settle]
    refine ⟨?_, ?_, ?_, ?_⟩
    all_goals split <;> omega
  threads := config.sizes.init_rknnThread
  buffers := by
    simp only [settle]
    split <;> omega
  tracking := by
    simp only [settle]
    exact ⟨Int.le_max_left _ _, Int.le_max_left _ _, Int.le_max_left _ _⟩
  named := ⟨filled (by decide), filled (by decide), filled (by decide)⟩
  models := ⟨filled (by decide), filled (by decide)⟩

theorem kept {text other : List UInt8} (some : text ≠ []) : (if text.isEmpty then other else text) = text :=
  if_neg fun empty => some (List.isEmpty_iff.mp empty)

/-- What is usable is left as it is. -/
theorem Config.settle_self (usable : config.Usable) : config.settle = config := by
  obtain ⟨_, ⟨width, height, fps, fixQp⟩, ⟨least, most⟩, buffers, ⟨trackBuffer, featureDim, interval⟩,
    ⟨device, stream, heap⟩, ⟨tracker, model⟩⟩ := usable
  simp only [settle, if_neg (Int.not_le.mpr width), if_neg (Int.not_le.mpr height), if_neg (Int.not_le.mpr fps),
    if_neg (Int.not_le.mpr fixQp), if_neg (Int.not_lt.mpr buffers), if_neg (Int.not_lt.mpr most),
    Int.max_eq_right least, Int.max_eq_right trackBuffer, Int.max_eq_right featureDim, Int.max_eq_right interval,
    kept device, kept stream, kept heap, kept tracker, kept model]

/-! ### Sections -/

variable {configs : INIReader} {i : Fin 8}

/-- What `LoadConfigs` bounds, beyond what `int` does. -/
structure Config.Loaded (config : Config Float) : Prop where
  inRange : config.InRange
  threads : config.rknnThread ≤ 6
  buffers : 2 ≤ config.dmaBuffers
  tracking : 1 ≤ config.trackBuffer ∧ 1 ≤ config.reidFeatureDim ∧ 1 ≤ config.reidInterval

theorem atLeast {n least : Int} (small : Fits least) (fits : Fits n) : Fits (max least n) := by
  unfold Fits at *
  omega

theorem fits_one : Fits 1 := ⟨by decide, by decide⟩

theorem fits_two : Fits 2 := ⟨by decide, by decide⟩

theorem capped {n : Int} (fits : Fits n) : Fits (if n > 6 then 6 else n) := by
  split
  next => exact ⟨by decide, by decide⟩
  next => exact fits

theorem capped_le (n : Int) : (if n > 6 then 6 else n) ≤ 6 := by
  split <;> omega

theorem videoConfig_loaded (made : videoConfig floats configs i = some config) : config.Loaded := by
  unfold videoConfig at made
  simp only at made
  split at made
  · cases made
  · split at made
    · cases made
    · obtain rfl := Option.some.inj made
      constructor
      case threads => exact capped_le _
      case buffers => exact Int.le_max_left _ _
      case tracking => exact ⟨Int.le_max_left _ _, Int.le_max_left _ _, Int.le_max_left _ _⟩
      case inRange =>
        apply Config.inRange_iff.mpr
        exact ⟨toInt_fits _, toInt_fits _, toInt_fits _, toInt_fits _, capped (toInt_fits _),
          atLeast fits_two (toInt_fits _), atLeast fits_one (toInt_fits _), atLeast fits_one (toInt_fits _),
          atLeast fits_one (toInt_fits _), toInt_fits _,
          toInt_fits _⟩

theorem singleConfig_loaded : (singleConfig floats configs).Loaded where
  threads := capped_le _
  buffers := Int.le_max_left _ _
  tracking := ⟨Int.le_max_left _ _, Int.le_max_left _ _, Int.le_max_left _ _⟩
  inRange := by
    apply Config.inRange_iff.mpr
    exact ⟨toInt_fits _, toInt_fits _, toInt_fits _, toInt_fits _, capped (toInt_fits _),
      atLeast fits_two (toInt_fits _), atLeast fits_one (toInt_fits _),
      atLeast fits_one (toInt_fits _), atLeast fits_one (toInt_fits _), toInt_fits _, toInt_fits _⟩

/-- The device that a file gives in a section: its values joined, empty where there is none. -/
def deviceOf (stream sectionName : List UInt8) : List UInt8 :=
  joined (valuesOf sectionName (bytes "device") (calls stream))

/-- The camera of a section, if it gives a device. -/
def cameraOf (stream : List UInt8) (i : Fin 8) : Option (List UInt8 × List UInt8) :=
  if deviceOf stream (videoSection i) = [] then none else some (videoSection i, deviceOf stream (videoSection i))

/-- The cameras of a file. `video` counts where no numbered section gives a device. -/
def cameras (stream : List UInt8) : List (List UInt8 × List UInt8) :=
  let numbered := (List.finRange 8).filterMap (cameraOf stream)
  if numbered = [] then
    [(bytes "video", if valuesOf (bytes "video") (bytes "device") (calls stream) = [] then bytes "/dev/video0"
      else deviceOf stream (bytes "video"))]
  else numbered

theorem device_separable : 61 ∉ bytes "device" := by decide

theorem get_device (stream sectionName : List UInt8) :
    (INIReader.load (some stream)).get sectionName (bytes "device") [] = deviceOf stream sectionName := by
  rw [INIReader.load_get stream sectionName device_separable, deviceOf]
  split
  next none =>
    rw [none]
    rfl
  next => rfl

/-- A section with a device is found. -/
theorem hasSection_of_device {sectionName : List UInt8} (some : deviceOf stream sectionName ≠ []) :
    (INIReader.load (.some stream)).hasSection sectionName = true := by
  apply (INIReader.load_hasSection stream sectionName).mpr
  have given : valuesOf sectionName (bytes "device") (calls stream) ≠ [] := by
    intro none
    apply some
    rw [deviceOf, none]
    rfl
  obtain ⟨value, member⟩ := List.exists_mem_of_ne_nil _ given
  obtain ⟨call, asked, _⟩ := List.mem_map.mp member
  obtain ⟨called, own⟩ := List.mem_filter.mp asked
  exact ⟨call, called, .inl (beq_iff_eq.mp (Bool.and_eq_true_iff.mp own).1)⟩

theorem videoConfig_camera (stream : List UInt8) (i : Fin 8) :
    (videoConfig floats (INIReader.load (some stream)) i).map (fun config => (config.sectionName, config.deviceName)) =
      cameraOf stream i := by
  unfold videoConfig cameraOf
  simp only [get_device, List.isEmpty_iff]
  by_cases none : deviceOf stream (videoSection i) = []
  · simp only [none, ↓reduceIte]
    split <;> rfl
  · simp only [none, hasSection_of_device none, ↓reduceIte, Bool.true_eq_false]
    rfl

theorem singleConfig_camera (stream : List UInt8) :
    ((singleConfig floats (INIReader.load (some stream))).sectionName,
      (singleConfig floats (INIReader.load (some stream))).deviceName) =
        (bytes "video", if valuesOf (bytes "video") (bytes "device") (calls stream) = [] then bytes "/dev/video0"
          else deviceOf stream (bytes "video")) := by
  have device := INIReader.load_get stream (bytes "video") device_separable (bytes "/dev/video0")
  exact congrArg (bytes "video", ·) device

theorem load_parseError (stream : List UInt8) : ¬(INIReader.load (some stream)).parseError < 0 := by
  rw [INIReader.load, iniParse_calls fun _ _ => rfl]
  exact Int.not_lt.mpr (Int.natCast_nonneg _)

/-- The check of the first loop changes nothing. -/
theorem loadConfigs_some (stream : List UInt8) :
    loadConfigs floats (some stream) =
      let made := (List.finRange 8).filterMap (videoConfig floats (INIReader.load (some stream)))
      if made.isEmpty then [singleConfig floats (INIReader.load (some stream))] else made := by
  unfold loadConfigs
  simp only [if_neg (load_parseError stream)]
  cases multi : (List.finRange 8).any fun i => (INIReader.load (some stream)).hasSection (videoSection i) with
  | true => rfl
  | false =>
    have none : (List.finRange 8).filterMap (videoConfig floats (INIReader.load (some stream))) = [] := by
      apply List.filterMap_eq_nil_iff.mpr
      intro i member
      have absent := List.any_eq_false.mp multi i member
      simp only [Bool.not_eq_true] at absent
      simp only [videoConfig, absent, ↓reduceIte]
    rw [none]
    rfl

theorem loadConfigs_cameras (stream : List UInt8) :
    (loadConfigs floats (some stream)).map (fun config => (config.sectionName, config.deviceName)) = cameras stream := by
  have numbered : ((List.finRange 8).filterMap (videoConfig floats (INIReader.load (some stream)))).map
      (fun config => (config.sectionName, config.deviceName)) = (List.finRange 8).filterMap (cameraOf stream) := by
    rw [List.map_filterMap]
    exact List.filterMap_congr fun i _ => videoConfig_camera stream i
  rw [loadConfigs_some, cameras, ← numbered]
  cases (List.finRange 8).filterMap (videoConfig floats (INIReader.load (some stream))) with
  | nil => exact congrArg ([·]) (singleConfig_camera stream)
  | cons config rest => rfl

theorem loadConfigs_loaded {file : Option (List UInt8)} (made : config ∈ loadConfigs floats file) : config.Loaded := by
  cases file with
  | none => cases made
  | some stream =>
    rw [loadConfigs_some] at made
    simp only at made
    split at made
    · rw [List.mem_singleton.mp made]
      exact singleConfig_loaded
    · obtain ⟨i, _, own⟩ := List.mem_filterMap.mp made
      exact videoConfig_loaded own

/-- For every file: a camera is configured for exactly those of `video0` to `video7` that give
a device, in this order, and for `video` alone where none does; each configuration is
usable once `init` has settled it, and only a file that cannot be opened configures none. -/
theorem cameras_configured (floats : Floats Double Float) (stream : List UInt8) :
    (loadConfigs floats (some stream)).map (fun config => (config.sectionName, config.deviceName)) = cameras stream ∧
      loadConfigs floats (some stream) ≠ [] ∧ loadConfigs floats none = [] ∧
      ∀ config ∈ loadConfigs floats (some stream), config.Loaded ∧ config.settle.Usable ∧
        config.settle.settle = config.settle := by
  refine ⟨loadConfigs_cameras stream, ?_, rfl, ?_⟩
  · intro none
    rw [loadConfigs_some] at none
    simp only at none
    split at none
    next => cases none
    next some => exact some (List.isEmpty_iff.mpr none)
  · intro config made
    have loaded := loadConfigs_loaded made
    have usable := Config.settle_usable loaded.inRange
    exact ⟨loaded, usable, Config.settle_self usable⟩

end Yolov5Rknn.TransCoderConfig
