import Yolov5Rknn.TransCoderInit
import Yolov5Rknn.Proofs.CaptureOpen
import Yolov5Rknn.Proofs.ConfigSections

/-! Whatever fails while transcoders start, what was taken is given back: at each point of
`init` the members of the transcoder hold all of it, but for the slips of the source that
leave something nobody gives back. -/

namespace Yolov5Rknn.TransCoderInit
open Ledger
open TransCoderConfig (Config)
open V4l2Dmabuf (Answers Allocation Capture DmaBuffer System)

variable {before ledger : Ledger Kind} {held : List (Resource Kind)}

/-- What is held counts, not its order. -/
theorem recount {others : List (Resource Kind)} (holds : Holds before held ledger)
    (same : ∀ resource, held.count resource = others.count resource) : Holds before others ledger :=
  holds.perm (List.perm_iff_count.mpr same)

/-! ### The encoder -/

def RkEncoder.resources (encoder : RkEncoder) : List (Resource Kind) :=
  encoder.dmaGroup.toList ++ encoder.buffer.toList ++ encoder.contex.toList ++ [encoder.self]

/-- The calls after which the configuration is left: all succeed, and the decoder's function does
not free it. -/
def EncoderCalls.leavesCfg (calls : EncoderCalls) : Bool :=
  calls.mppCreate && calls.mppInit && calls.cfgInit && calls.setCfg && !calls.decCfgDeinit

theorem RkEncoder.delete_holds {encoder : RkEncoder} (holds : Holds before (encoder.resources ++ held) ledger) :
    Holds before held (RkEncoder.delete ledger encoder) := by
  simp only [resources, List.append_assoc] at holds
  exact holds.releaseHandle.releaseHandle.releaseHandle.release

/-- What a step of `init` leaves: what its members hold, and what is left of some kinds. -/
def Left (before : Ledger Kind) (members : List (Resource Kind)) (kinds : List Kind) (held : List (Resource Kind))
    (ledger : Ledger Kind) : Prop :=
  ∃ leaked : List (Resource Kind), leaked.map Resource.kind = kinds ∧ Holds before (members ++ (leaked ++ held)) ledger

theorem Left.none {members : List (Resource Kind)} (holds : Holds before (members ++ held) ledger) :
    Left before members [] held ledger :=
  ⟨[], rfl, holds⟩

theorem Left.one {members : List (Resource Kind)} {resource : Resource Kind} {kind : Kind}
    (holds : Holds before (resource :: (members ++ held)) ledger) (own : resource.kind = kind) :
    Left before members [kind] held ledger := by
  refine ⟨[resource], by rw [List.map_singleton, own], recount holds ?_⟩
  intro other
  simp only [List.count_append, List.count_cons, List.count_nil]
  omega

theorem RkEncoder.members {cfg context self : Resource Kind} {buffer group : Option (Resource Kind)}
    (holds : Holds before (group.toList ++ (buffer.toList ++ cfg :: context :: self :: held)) ledger) :
    Holds before (cfg :: (RkEncoder.resources ⟨self, some context, buffer, group⟩ ++ held)) ledger := by
  apply recount holds
  intro resource
  simp only [resources, List.count_append, List.count_cons, Option.toList_some, List.count_nil]
  omega

theorem RkEncoder.init_left (calls : EncoderCalls) {self : Resource Kind}
    (holds : Holds before (self :: held) ledger) :
    Left before (RkEncoder.init calls { self } ledger).2.1.resources
      (if calls.leavesCfg then [.mppEncCfg] else []) held (RkEncoder.init calls { self } ledger).2.2 := by
  obtain ⟨mppCreate, mppInit, cfgInit, bufferGet, groupGet, setCfg, decCfgDeinit⟩ := calls
  cases mppCreate with
  | false => exact .none holds
  | true =>
    have context := holds.acquire .mppContext
    cases mppInit with
    | false => exact .none context
    | true =>
      cases cfgInit with
      | false => exact .none context
      | true =>
        have cfg := context.acquire .mppEncCfg
        have buffer := cfg.request .mppBuffer bufferGet
        have group := buffer.request .mppBufferGroup groupGet
        have members := RkEncoder.members group
        cases setCfg with
        | false => exact .none members.release
        | true =>
          cases decCfgDeinit with
          | true => exact .none members.release
          | false => exact .one members rfl

/-! ### The workers -/

def RkYolo.resources (yolo : RkYolo) : List (Resource Kind) :=
  yolo.inputMem.toList ++ yolo.outputMems.flatMap Option.toList ++ yolo.rknnCtx.toList ++ yolo.inputAttrs.toList ++
    yolo.outputAttrs.toList ++ yolo.modelData.toList ++ [yolo.self]

/-- Memories are made with a context only, so that `Destroy` gives them back. -/
def RkYolo.Backed (yolo : RkYolo) : Prop :=
  yolo.rknnCtx = none → yolo.inputMem = none ∧ yolo.outputMems.flatMap Option.toList = []

/-- The calls after which the model's file is left open. -/
def WorkerCalls.leavesFile (calls : WorkerCalls) : Bool := calls.fopen && (!calls.malloc || calls.fseek < 0)

theorem releaseHandles {handles : List (Option (Resource Kind))}
    (holds : Holds before (handles.flatMap Option.toList ++ held) ledger) :
    Holds before held (handles.foldl (fun ledger handle => ledger.releaseHandle handle) ledger) := by
  induction handles generalizing ledger with
  | nil => exact holds
  | cons handle handles ih =>
    rw [List.flatMap_cons, List.append_assoc] at holds
    exact ih holds.releaseHandle

theorem RkYolo.delete_holds {yolo : RkYolo} (backed : yolo.Backed)
    (holds : Holds before (yolo.resources ++ held) ledger) :
    Holds before held (RkYolo.delete ledger yolo) := by
  simp only [resources, List.append_assoc] at holds
  unfold delete
  have rest {ledger : Ledger Kind}
      (holds : Holds before (yolo.rknnCtx.toList ++ (yolo.inputAttrs.toList ++ (yolo.outputAttrs.toList ++
        (yolo.modelData.toList ++ ([yolo.self] ++ held))))) ledger) :
      Holds before held (((((ledger.releaseHandle yolo.rknnCtx).releaseHandle yolo.inputAttrs).releaseHandle
        yolo.outputAttrs).releaseHandle yolo.modelData).release yolo.self) :=
    holds.releaseHandle.releaseHandle.releaseHandle.releaseHandle.release
  apply rest
  cases context : yolo.rknnCtx with
  | some resource =>
    have freed : yolo.destroyMem = fun ledger handle => ledger.releaseHandle handle := by
      funext ledger mem
      rw [destroyMem, context]
      rfl
    rw [freed]
    rw [context] at holds
    exact releaseHandles holds.releaseHandle
  | none =>
    have kept : yolo.destroyMem = fun ledger _ => ledger := by
      funext ledger mem
      rw [destroyMem, context]
      rfl
    obtain ⟨input, outputs⟩ := backed context
    rw [input, outputs, context] at holds
    rw [kept]
    have same (mems : List (Option (Resource Kind))) : mems.foldl (fun ledger _ => ledger) ledger = ledger := by
      induction mems with
      | nil => rfl
      | cons mem mems ih => exact ih
    rw [same]
    exact holds

theorem RkYolo.loadModel_left (calls : WorkerCalls) {self : Resource Kind}
    (holds : Holds before (self :: held) ledger) :
    ∃ modelData, (loadModel calls { self } ledger).2.1 = { self, modelData } ∧
      Left before (resources { self, modelData }) (if calls.leavesFile then [.file] else []) held
        (loadModel calls { self } ledger).2.2 ∧
      ((loadModel calls { self } ledger).1 = true → calls.leavesFile = false) := by
  unfold loadModel WorkerCalls.leavesFile
  cases calls.fopen with
  | false => exact ⟨none, rfl, .none holds, fun _ => rfl⟩
  | true =>
    have file := holds.acquire .file
    cases calls.malloc with
    | false => exact ⟨none, rfl, .one file rfl, fun goes => by cases goes⟩
    | true =>
      have block := (file.acquire .block).perm (.swap ..)
      refine ⟨some ((ledger.acquire .file).fresh .block), ?_⟩
      simp only [Ledger.request, ↓reduceIte, Bool.true_eq_false, false_or, Bool.not_true, Bool.false_or, Bool.true_and]
      by_cases sought : calls.fseek < 0
      · simp only [sought, ↓reduceIte, decide_true]
        exact ⟨trivial, .one block rfl, fun goes => by cases goes⟩
      · simp only [sought, ↓reduceIte, decide_false]
        split
        · exact ⟨rfl, .none block.release, fun _ => trivial⟩
        · exact ⟨rfl, .none block.release, fun _ => trivial⟩

theorem RkYolo.createOutputs_holds (calls : WorkerCalls) (more : Nat) (ret : Int) {yolo : RkYolo}
    {first : List (Option (Resource Kind))} (slots : yolo.outputMems = first ++ List.replicate more none)
    (holds : Holds before (yolo.resources ++ held) ledger) :
    Holds before ((createOutputs calls more first.length ret yolo ledger).2.1.resources ++ held)
        (createOutputs calls more first.length ret yolo ledger).2.2 ∧
      (createOutputs calls more first.length ret yolo ledger).2.1.rknnCtx = yolo.rknnCtx := by
  induction more generalizing yolo first ledger ret with
  | zero => exact ⟨holds, rfl⟩
  | succ more ih =>
    have stored (mem : Option (Resource Kind)) : yolo.outputMems.set first.length mem =
        (first ++ [mem]) ++ List.replicate more none := by
      rw [slots, List.set_append_right _ _ le_rfl, Nat.sub_self, List.replicate_succ, List.set_cons_zero,
        List.append_assoc]
      rfl
    have next := holds.request .rknnMem (calls.createOutputMem first.length)
    have members (mem : Option (Resource Kind)) (resource : Resource Kind) :
        (mem.toList ++ (yolo.resources ++ held)).count resource =
          (resources { yolo with outputMems := yolo.outputMems.set first.length mem } ++ held).count resource := by
      simp only [resources, stored]
      simp only [slots, List.flatMap_append, List.flatMap_cons, List.flatMap_nil,
        List.replicate_succ, List.count_append, Option.toList_none, List.count_nil]
      omega
    have after := recount next (members _)
    unfold createOutputs
    simp only
    split
    · exact ⟨after, rfl⟩
    · have rest := ih (calls.setOutputMem first.length) (stored _) after
      rw [List.length_append, List.length_singleton] at rest
      exact rest

theorem RkYolo.createMems_holds (calls : WorkerCalls) {yolo : RkYolo} (bare : yolo.inputAttrs = none)
    (plain : yolo.outputAttrs = none) (empty : yolo.inputMem = none ∧ yolo.outputMems = [])
    (holds : Holds before (yolo.resources ++ held) ledger) :
    Holds before ((createMems calls yolo ledger).2.1.resources ++ held) (createMems calls yolo ledger).2.2 ∧
      (createMems calls yolo ledger).2.1.rknnCtx = yolo.rknnCtx := by
  obtain ⟨self, modelData, rknnCtx, inputAttrs, outputAttrs, inputMem, outputMems⟩ := yolo
  obtain ⟨rfl, rfl⟩ := empty
  subst bare plain
  have inputs : Holds before (resources ⟨self, modelData, rknnCtx, some (ledger.fresh .object), none, none, []⟩ ++ held)
      (ledger.acquire .object) := by
    apply recount (holds.acquire .object)
    intro resource
    simp only [resources, List.count_append, List.count_cons, Option.toList_none, Option.toList_some, List.count_nil]
    omega
  have outputs := inputs.acquire .object
  unfold createMems
  simp only
  split
  · exact ⟨inputs, rfl⟩
  · have outputs : Holds before (resources ⟨self, modelData, rknnCtx, some (ledger.fresh .object),
        some ((ledger.acquire .object).fresh .object), none, []⟩ ++ held)
        ((ledger.acquire .object).acquire .object) := by
      apply recount (inputs.acquire .object)
      intro resource
      simp only [resources, List.count_append, List.count_cons, Option.toList_none, Option.toList_some, List.count_nil]
      omega
    split
    · exact ⟨outputs, rfl⟩
    · have member (mems : List (Option (Resource Kind))) (unfilled : mems.flatMap Option.toList = []) :
          Holds before (resources ⟨self, modelData, rknnCtx, some (ledger.fresh .object),
            some ((ledger.acquire .object).fresh .object),
            (((ledger.acquire .object).acquire .object).request .rknnMem calls.createInputMem).1, mems⟩ ++ held)
            (((ledger.acquire .object).acquire .object).request .rknnMem calls.createInputMem).2 := by
        apply recount (outputs.request .rknnMem calls.createInputMem)
        intro resource
        simp only [resources, unfilled, List.count_append, List.flatMap_nil, Option.toList_none, List.count_nil]
        omega
      split
      · exact ⟨member [] rfl, rfl⟩
      · have unfilled : (List.replicate calls.nOutput (none : Option (Resource Kind))).flatMap Option.toList = [] := by
          apply List.flatMap_eq_nil_iff.mpr
          intro mem inside
          rw [List.eq_of_mem_replicate inside]
          rfl
        have all := member _ unfilled
        generalize hyolo : RkYolo.mk self modelData rknnCtx _ _ _ _ = yolo at all
        have slots : yolo.outputMems = [] ++ List.replicate calls.nOutput none := by rw [← hyolo]; rfl
        have looped := createOutputs_holds calls calls.nOutput calls.setInputMem slots all
        rw [List.length_nil] at looped
        have same : yolo.rknnCtx = rknnCtx := by rw [← hyolo]
        rw [same] at looped
        exact looped

/-- `Init`: the worker holds what was taken, but for the file it left open, and that only on an exit
with an error. -/
theorem RkYolo.init_left (calls : WorkerCalls) {self : Resource Kind}
    (holds : Holds before (self :: held) ledger) :
    Left before (RkYolo.init calls { self } ledger).2.1.resources (if calls.leavesFile then [.file] else []) held
        (RkYolo.init calls { self } ledger).2.2 ∧
      (RkYolo.init calls { self } ledger).2.1.Backed ∧
      (calls.leavesFile = true → (RkYolo.init calls { self } ledger).1 = -1) := by
  obtain ⟨modelData, loaded, left, closed⟩ := loadModel_left calls holds
  unfold RkYolo.init
  generalize loadModel calls { self } ledger = result at loaded left closed
  obtain ⟨goes, yolo, after⟩ := result
  simp only at loaded left closed
  subst loaded
  cases goes with
  | false => exact ⟨left, fun _ => ⟨rfl, rfl⟩, fun _ => rfl⟩
  | true =>
    have whole : calls.leavesFile = false := closed rfl
    rw [whole] at left ⊢
    obtain ⟨leaked, kinds, holds⟩ := left
    obtain rfl := List.map_eq_nil_iff.mp kinds
    have context : Holds before
        (resources { self, modelData, rknnCtx := (after.request .rknnContext calls.rknnInit).1 } ++ held)
        (after.request .rknnContext calls.rknnInit).2 := by
      apply recount (holds.request .rknnContext calls.rknnInit)
      intro resource
      simp only [resources, List.count_append, Option.toList_none, List.flatMap_nil, List.count_nil]
      omega
    simp only
    split
    · exact ⟨.none context, fun _ => ⟨rfl, rfl⟩, fun slip => by cases slip⟩
    next passed =>
      have given : calls.rknnInit = true := Bool.eq_true_of_not_eq_false fun refused => passed (.inl refused)
      have made := createMems_holds calls rfl rfl ⟨rfl, rfl⟩ context
      refine ⟨.none made.1, ?_, fun slip => by cases slip⟩
      intro missing
      rw [made.2, given] at missing
      cases missing

/-- The loop over the workers, where `done` stands before it goes on: the worker after the last of
the list is the one that failed. -/
theorem initWorkers_left (worker : Nat → WorkerCalls) (more : Nat) {done : List RkYolo}
    (backed : ∀ yolo ∈ done, yolo.Backed) (holds : Holds before (done.flatMap RkYolo.resources ++ held) ledger) :
    let (all, rkyoloList, after) := initWorkers worker more done.length done ledger
    Left before (rkyoloList.flatMap RkYolo.resources)
        (if !all && (worker rkyoloList.length).leavesFile then [.file] else []) held after ∧
      (∀ yolo ∈ rkyoloList, yolo.Backed) ∧
      (if all then rkyoloList.length = done.length + more else rkyoloList.length < done.length + more) := by
  induction more generalizing done ledger with
  | zero => exact ⟨.none holds, backed, rfl⟩
  | succ more ih =>
    have started : Holds before (ledger.fresh .object :: (done.flatMap RkYolo.resources ++ held))
        (ledger.acquire .object) := holds.acquire .object
    obtain ⟨left, own, slip⟩ := RkYolo.init_left (worker done.length) started
    unfold initWorkers
    generalize RkYolo.init (worker done.length) { self := ledger.fresh .object } (ledger.acquire .object) = result
      at left own slip
    obtain ⟨ret, yolo, objects⟩ := result
    obtain ⟨leaked, kinds, held'⟩ := left
    simp only at held' own slip ⊢
    by_cases failed : ret ≠ 0
    · simp only [failed, ne_eq, not_false_eq_true, ↓reduceIte, Bool.not_false, Bool.true_and]
      refine ⟨⟨leaked, kinds, ?_⟩, backed, by simp⟩
      apply recount (RkYolo.delete_holds own held')
      intro resource
      simp only [List.count_append]
      omega
    · have clean : (worker done.length).leavesFile = false := by
        cases leaves : (worker done.length).leavesFile with
        | false => rfl
        | true =>
          rw [slip leaves] at failed
          exact absurd (by decide) failed
      rw [clean] at kinds
      obtain rfl := List.map_eq_nil_iff.mp kinds
      simp only [failed, ↓reduceIte]
      have later : ∀ other ∈ done ++ [yolo], other.Backed := by
        intro other member
        rcases List.mem_append.mp member with early | last
        · exact backed other early
        · exact List.mem_singleton.mp last ▸ own
      have next : Holds before ((done ++ [yolo]).flatMap RkYolo.resources ++ held) objects := by
        apply recount held'
        intro resource
        simp only [List.flatMap_append, List.flatMap_cons, List.flatMap_nil, List.count_append, List.count_nil]
        omega
      have rest := ih later next
      rw [List.length_append, List.length_singleton] at rest
      rw [← Nat.add_right_comm, Nat.add_assoc] at rest
      exact rest

/-! ### The third tracker -/

def FeatureTensor.resources (extractor : FeatureTensor) : List (Resource Kind) :=
  extractor.inputMem.toList ++ extractor.outputMem.toList ++ [extractor.ctx] ++ [extractor.self]

theorem FeatureTensor.delete_holds {extractor : FeatureTensor}
    (holds : Holds before (extractor.resources ++ held) ledger) :
    Holds before held (FeatureTensor.delete ledger extractor) := by
  simp only [resources, List.append_assoc] at holds
  exact holds.releaseHandle.releaseHandle.release.release

/-- The block of the model is left. -/
theorem FeatureTensor.create_left (calls : ExtractorCalls) (holds : Holds before held ledger) :
    Left before (FeatureTensor.create calls ledger).1.resources [.block] held
      (FeatureTensor.create calls ledger).2 := by
  have object := holds.acquire .object
  have block := (object.acquire .file).acquire .block
  have closed := (block.perm (.swap ..)).release
  have context := closed.acquire .rknnContext
  have input := context.request .rknnMem calls.createInputMem
  have output := input.request .rknnMem calls.createOutputMem
  refine ⟨[((ledger.acquire .object).acquire .file).fresh .block], rfl, recount output ?_⟩
  intro resource
  simp only [resources, FeatureTensor.create, List.count_append, List.count_cons, List.count_nil]
  omega

def DeepSortWrapper.resources (wrapper : DeepSortWrapper) : List (Resource Kind) :=
  wrapper.featureExtractor1.resources ++ wrapper.featureExtractor2.resources ++ [wrapper.objTracker] ++ [wrapper.self]

/-- The parts of the tracker and the models of both extractors. -/
def DeepSortWrapper.leaks : List Kind := [.object, .object, .block, .block]

theorem DeepSortWrapper.delete_holds {wrapper : DeepSortWrapper}
    (holds : Holds before (wrapper.resources ++ held) ledger) :
    Holds before held (DeepSortWrapper.delete ledger wrapper) := by
  simp only [resources, List.append_assoc] at holds
  exact (FeatureTensor.delete_holds (FeatureTensor.delete_holds holds)).release.release

theorem DeepSortWrapper.create_left (calls1 calls2 : ExtractorCalls) (holds : Holds before held ledger) :
    Left before (DeepSortWrapper.create calls1 calls2 ledger).1.resources DeepSortWrapper.leaks held
      (DeepSortWrapper.create calls1 calls2 ledger).2 := by
  have tracker := (((holds.acquire .object).acquire .object).acquire .object).acquire .object
  obtain ⟨first, firstKinds, one⟩ := FeatureTensor.create_left calls1 tracker
  obtain ⟨second, secondKinds, two⟩ := FeatureTensor.create_left calls2 one
  refine ⟨((ledger.acquire .object).acquire .object).fresh .object ::
    (((ledger.acquire .object).acquire .object).acquire .object).fresh .object :: (first ++ second), ?_, ?_⟩
  · simp only [List.map_cons, List.map_append, firstKinds, secondKinds]
    rfl
  · apply recount two
    intro resource
    simp only [resources, DeepSortWrapper.create, List.count_append, List.count_cons, List.count_nil]
    omega

/-! ### The transcoder -/

/-- What the members hold of the second ledger. -/
def TransCoder.objects (coder : TransCoder) : List (Resource Kind) :=
  coder.rkEncoder.elim [] RkEncoder.resources ++ coder.byteTracker.toList ++
    coder.deepSortTracker.elim [] DeepSortWrapper.resources ++ coder.rkyoloList.flatMap RkYolo.resources ++
    coder.pool.toList ++ coder.encodeData.toList

/-- What the members hold of the system. -/
def TransCoder.devices (coder : TransCoder) : List (Resource V4l2Dmabuf.Kind) :=
  V4l2Dmabuf.TransCoder.resources ⟨coder.dmabufCapture, coder.outputDmaBuffers⟩

/-- What nobody gives back any more: the encoder's configuration, the parts of the third tracker, and
the model file of the worker at which the loop ended. -/
def leaks (outcomes : Outcomes) (threads : Nat) (coder : TransCoder) : List Kind :=
  (if coder.rkEncoder.isSome && outcomes.encoder.leavesCfg then [.mppEncCfg] else []) ++
    (if coder.deepSortTracker.isSome then DeepSortWrapper.leaks else []) ++
    (if coder.pool.isSome && coder.rkyoloList.length < threads &&
      (outcomes.worker coder.rkyoloList.length).leavesFile then [.file] else [])

/-- The tracker that a ready transcoder has is the one configured. -/
structure Tracking (tracker : TransCoderConfig.TrackerType) (coder : TransCoder) : Prop where
  byteTracker : coder.byteTracker.isSome = true ↔ tracker = .bytetrack
  deepSortTracker : coder.deepSortTracker.isSome = true ↔ tracker = .deepsort

/-- What `run` finds when the transcoder is ready. -/
structure Working (tracker : TransCoderConfig.TrackerType) (threads : Nat) (coder : TransCoder) : Prop where
  workers : coder.rkyoloList.length = threads
  encoder : coder.rkEncoder.isSome = true
  pool : coder.pool.isSome = true
  tracking : Tracking tracker coder

theorem workers_deleted {rkyoloList : List RkYolo} (backed : ∀ yolo ∈ rkyoloList, yolo.Backed)
    (holds : Holds before (rkyoloList.flatMap RkYolo.resources ++ held) ledger) :
    Holds before held (rkyoloList.foldl RkYolo.delete ledger) := by
  induction rkyoloList generalizing ledger with
  | nil => exact holds
  | cons yolo rest ih =>
    rw [List.flatMap_cons, List.append_assoc] at holds
    exact ih (fun other member => backed other (.tail _ member))
      (RkYolo.delete_holds (backed yolo List.mem_cons_self) holds)

/-- A member that may be null. -/
theorem part_deleted {α : Type} {part : Option α} {resources : α → List (Resource Kind)}
    {delete : Ledger Kind → α → Ledger Kind}
    (deletes : ∀ value ledger, Holds before (resources value ++ held) ledger → Holds before held (delete ledger value))
    (holds : Holds before (part.elim [] resources ++ held) ledger) :
    Holds before held (part.elim ledger (delete ledger)) := by
  cases part with
  | none => exact holds
  | some value => exact deletes value ledger holds

theorem TransCoder.delete_objects {coder : TransCoder} {world : World} (backed : ∀ yolo ∈ coder.rkyoloList, yolo.Backed)
    (holds : Holds before (coder.objects ++ held) world.objects) : Holds before held (coder.delete world).objects := by
  simp only [objects, List.append_assoc] at holds
  unfold delete
  simp only
  apply Holds.releaseHandle
  apply Holds.releaseHandle
  apply workers_deleted backed
  apply part_deleted fun _ _ => DeepSortWrapper.delete_holds
  apply Holds.releaseHandle
  apply part_deleted fun _ _ => RkEncoder.delete_holds
  exact holds

theorem TransCoder.delete_devices {coder : TransCoder} {world : World} {start : Ledger V4l2Dmabuf.Kind}
    {others : List (Resource V4l2Dmabuf.Kind)} (holds : Holds start (coder.devices ++ others) world.system.ledger) :
    Holds start others (coder.delete world).system.ledger := by
  unfold devices V4l2Dmabuf.TransCoder.resources at holds
  rw [List.append_assoc] at holds
  exact V4l2Dmabuf.freed (V4l2Dmabuf.close_holds holds)

variable {Float : Type} {outcomes : Outcomes} {config : Config Float} {system : System}

/-- How `init` ends: the members hold what was taken, but for the leaks. -/
structure Ended (before : Ledger Kind) (held : List (Resource Kind)) (outcomes : Outcomes) (threads : Nat)
    (coder : TransCoder) (objects : Ledger Kind) : Prop where
  left : Left before coder.objects (leaks outcomes threads coder) held objects
  backed : ∀ yolo ∈ coder.rkyoloList, yolo.Backed
  last : coder.deepSortTracker.isSome = true → coder.ready = true

/-- An exit before the workers. -/
theorem Ended.early {coder : TransCoder} {objects : Ledger Kind} {threads : Nat}
    (left : Left before coder.objects (leaks outcomes threads coder) held objects)
    (early : coder.rkyoloList = []) (plain : coder.deepSortTracker = none) :
    Ended before held outcomes threads coder objects := by
  refine ⟨left, ?_, ?_⟩
  · intro yolo member
    rw [early] at member
    cases member
  · intro some
    rw [plain] at some
    cases some

theorem initTracker_ended {coder : TransCoder} {objects : Ledger Kind} {threads : Nat}
    (tracker : TransCoderConfig.TrackerType) (bare : coder.byteTracker = none)
    (plain : coder.deepSortTracker = none) (unready : coder.ready = false) (encoder : coder.rkEncoder.isSome = true)
    (pool : coder.pool.isSome = true) (workers : coder.rkyoloList.length = threads)
    (ended : Ended before held outcomes threads coder objects) :
    let (last, after) := coder.initTracker tracker outcomes objects
    last.dmabufCapture = coder.dmabufCapture ∧ last.outputDmaBuffers = coder.outputDmaBuffers ∧
      last.encodeData = coder.encodeData ∧ Ended before held outcomes threads last after ∧
      (last.ready = true → Working tracker threads last) := by
  obtain ⟨⟨leaked, kinds, holds⟩, backed, _⟩ := ended
  obtain ⟨capture, encodeData, buffers, rkEncoder, pool', workers', byteTracker, deepSortTracker, ready⟩ := coder
  simp only at bare plain unready encoder pool workers kinds
  subst bare plain unready
  cases tracker with
  | none =>
    refine ⟨rfl, rfl, rfl, ⟨⟨leaked, kinds, holds⟩, backed, fun _ => rfl⟩, fun _ => ⟨workers, encoder, pool, ?_⟩⟩
    exact ⟨by simp, by simp⟩
  | bytetrack =>
    refine ⟨rfl, rfl, rfl, ⟨⟨leaked, kinds, ?_⟩, backed, fun _ => rfl⟩, fun _ => ⟨workers, encoder, pool, ?_⟩⟩
    · apply recount (holds.acquire .object)
      intro resource
      simp only [TransCoder.objects, List.count_append, List.count_cons, Option.toList_none, Option.toList_some,
        List.count_nil]
      omega
    · exact ⟨by simp, by simp⟩
  | deepsort =>
    unfold TransCoder.initTracker
    simp only
    split
    next => exact ⟨rfl, rfl, rfl, ⟨⟨leaked, kinds, holds⟩, backed, fun some => by cases some⟩,
        fun ready => by cases ready⟩
    next =>
      have file := (holds.acquire .file).release
      obtain ⟨parts, partKinds, made⟩ :=
        DeepSortWrapper.create_left outcomes.featureExtractor1 outcomes.featureExtractor2 file
      refine ⟨rfl, rfl, rfl, ⟨⟨leaked ++ parts, ?_, ?_⟩, backed, fun _ => rfl⟩,
        fun _ => ⟨workers, encoder, pool, ?_⟩⟩
      · rw [List.map_append, kinds, partKinds]
        simp [leaks, workers]
      · apply recount made
        intro resource
        simp only [TransCoder.objects, List.count_append, Option.elim_none, Option.elim_some, Option.toList_none,
          List.count_nil]
        omega
      · exact ⟨by simp, by simp⟩

/-- Whether the capture was closed or is kept, and then what `ready_` says. -/
def Kept (capture : Capture) (system : System) (tracker : TransCoderConfig.TrackerType) (threads : Nat)
    (coder : TransCoder) (after : System) : Prop :=
  (coder.dmabufCapture, after) = V4l2Dmabuf.v4l2DmabufClose capture system ∧ coder.ready = false ∨
    coder.dmabufCapture = capture ∧ after = system ∧ (coder.ready = true → Working tracker threads coder)

theorem initWorking_ended (outcomes : Outcomes) (config : Config Float) {capture : Capture}
    {encodeData : Option (Resource Kind)} {buffers : List DmaBuffer} {world : World}
    (holds : Holds before (encodeData.toList ++ held) world.objects) :
    let (last, after) := TransCoder.initWorking outcomes config
      { dmabufCapture := capture, encodeData, outputDmaBuffers := buffers } world
    last.outputDmaBuffers = buffers ∧ last.encodeData = encodeData ∧
      Ended before held outcomes config.rknnThread.toNat last after.objects ∧
      Kept capture world.system config.tracker config.rknnThread.toNat last after.system := by
  have started : Holds before (world.objects.fresh .object :: (encodeData.toList ++ held))
      (world.objects.acquire .object) := holds.acquire .object
  have encoded := RkEncoder.init_left outcomes.encoder started
  unfold TransCoder.initWorking
  generalize RkEncoder.init outcomes.encoder { self := world.objects.fresh .object } (world.objects.acquire .object) =
    result at encoded
  obtain ⟨ret, encoder, objects⟩ := result
  obtain ⟨cfgs, cfgKinds, encoded⟩ := encoded
  simp only at encoded ⊢
  split
  next failed =>
    refine ⟨rfl, rfl, Ended.early ⟨cfgs, ?_, ?_⟩ rfl rfl, .inl ⟨rfl, rfl⟩⟩
    · rw [cfgKinds]
      simp [leaks, TransCoder.giveUp]
    · apply recount encoded
      intro resource
      simp only [TransCoder.objects, TransCoder.giveUp, Option.elim_some, Option.elim_none, List.count_append,
        Option.toList_none, List.flatMap_nil, List.count_nil]
      omega
  next =>
    cases pooled : outcomes.pool with
    | false =>
      refine ⟨rfl, rfl, Ended.early ⟨cfgs, ?_, ?_⟩ rfl rfl, .inl ⟨rfl, rfl⟩⟩
      · rw [cfgKinds]
        simp [leaks, TransCoder.giveUp, Ledger.request]
      · apply recount encoded
        intro resource
        simp only [TransCoder.objects, TransCoder.giveUp, Ledger.request, Option.elim_some, Option.elim_none,
          List.count_append, Option.toList_none, List.flatMap_nil, List.count_nil, ↓reduceIte, Bool.false_eq_true]
        omega
    | true =>
      have pool := encoded.acquire .object
      obtain ⟨⟨files, fileKinds, worked⟩, backed, counted⟩ := @initWorkers_left _ _ _ outcomes.worker
        config.rknnThread.toNat [] (fun _ member => by cases member) pool
      simp only [Ledger.request, ↓reduceIte, Bool.true_eq_false, List.length_nil] at fileKinds worked backed counted ⊢
      generalize initWorkers outcomes.worker config.rknnThread.toNat 0 [] (objects.acquire .object) = result
        at fileKinds worked backed counted ⊢
      obtain ⟨all, rkyoloList, after⟩ := result
      simp only at fileKinds worked backed counted ⊢
      have members : Holds before (TransCoder.objects ⟨capture, encodeData, buffers, some encoder,
          some (objects.fresh .object), rkyoloList, none, none, false⟩ ++ ((cfgs ++ files) ++ held)) after := by
        apply recount worked
        intro resource
        simp only [TransCoder.objects, Option.elim_some, Option.elim_none, List.count_append, List.count_cons,
          Option.toList_none, Option.toList_some, List.count_nil]
        omega
      cases all with
      | false =>
        simp only [Bool.not_false, Bool.true_and, Bool.false_eq_true, ↓reduceIte, Nat.zero_add] at fileKinds counted
        refine ⟨rfl, rfl, ⟨⟨cfgs ++ files, ?_, members⟩, backed, fun some => by cases some⟩, .inl ⟨rfl, rfl⟩⟩
        rw [List.map_append, cfgKinds, fileKinds]
        simp [leaks, TransCoder.giveUp, counted]
      | true =>
        simp only [Bool.not_true, Bool.false_and, Bool.false_eq_true, ↓reduceIte, Nat.zero_add] at fileKinds counted
        obtain rfl := List.map_eq_nil_iff.mp fileKinds
        have ended : Ended before held outcomes config.rknnThread.toNat ⟨capture, encodeData, buffers, some encoder,
            some (objects.fresh .object), rkyoloList, none, none, false⟩ after := by
          refine ⟨⟨cfgs ++ [], ?_, members⟩, backed, fun some => by cases some⟩
          rw [List.append_nil, cfgKinds]
          simp [leaks, counted]
        obtain ⟨capture', buffers', data', last, working⟩ :=
          initTracker_ended config.tracker rfl rfl rfl rfl rfl counted ended
        exact ⟨buffers', data', last, .inr ⟨capture', rfl, working⟩⟩

/-! ### The output buffers -/

open V4l2Dmabuf (Backed allocateOutputs dmaBufAlloc requests)

theorem allocateOutputs_backed (output : Nat → Allocation) (size more : Nat) {first buffers : List DmaBuffer}
    {devices : Ledger V4l2Dmabuf.Kind} (slots : buffers = first ++ List.replicate more ({} : DmaBuffer))
    (backed : ∀ buffer ∈ first, Backed buffer)
    (all : (allocateOutputs output size more first.length buffers devices).1 = true) :
    (allocateOutputs output size more first.length buffers devices).2.1.length = first.length + more ∧
      ∀ buffer ∈ (allocateOutputs output size more first.length buffers devices).2.1, Backed buffer := by
  induction more generalizing first buffers devices with
  | zero =>
    rw [List.replicate_zero, List.append_nil] at slots
    subst slots
    exact ⟨rfl, backed⟩
  | succ more ih =>
    have slots : buffers = first ++ ({} : DmaBuffer) :: List.replicate more {} := slots
    have allocated := V4l2Dmabuf.dmaBufAlloc_allocated (output first.length) (Holds.refl devices)
    unfold allocateOutputs at all ⊢
    generalize dmaBufAlloc (output first.length) devices = result at allocated all ⊢
    cases allocated with
    | failed holds => cases all
    | @backed fd va after descriptor mapping holds =>
      have stored := (V4l2Dmabuf.resources_set slots { fd, va, size }).1
      have later : ∀ buffer ∈ first ++ [⟨some fd, some va, size⟩], Backed buffer := by
        intro buffer member
        rcases List.mem_append.mp member with early | last
        · exact backed buffer early
        · exact List.mem_singleton.mp last ▸ ⟨fd, va, rfl, rfl, descriptor, mapping⟩
      have rest := @ih _ _ after (stored.trans (List.append_cons ..)) later
      simp only [List.length_append, List.length_singleton] at rest
      rw [Nat.add_assoc, Nat.add_comm 1 more] at rest
      exact rest all

/-! ### `init` -/

/-- What `run` and the callback may rely on when `ready_` is set. -/
structure Ready (config : Config Float) (world : World) (coder : TransCoder) (after : World) : Prop where
  working : Working config.tracker config.rknnThread.toNat coder
  encodeData : coder.encodeData.isSome = true
  outputs : coder.outputDmaBuffers.length = config.rknnThread.toNat ∧ ∀ buffer ∈ coder.outputDmaBuffers, Backed buffer
  streaming : coder.dmabufCapture.streaming = true
  sized : coder.dmabufCapture.width = config.width ∧ coder.dmabufCapture.height = config.height
  queued : ∃ device, coder.dmabufCapture.fd = some device ∧
    after.system.queued = world.system.queued ++ requests device coder.dmabufCapture.buffers
  buffers : ∀ buffer ∈ coder.dmabufCapture.buffers, Backed buffer

theorem giveUp_devices {start : Ledger V4l2Dmabuf.Kind} {coder : TransCoder} {world : World}
    (holds : Holds start coder.devices world.system.ledger) :
    Holds start (coder.giveUp world).1.devices (coder.giveUp world).2.system.ledger :=
  V4l2Dmabuf.closing_holds holds

theorem init_ended (outcomes : Outcomes) (config : Config Float) (world : World) :
    let (coder, after) := TransCoder.init outcomes config world
    Ended world.objects [] outcomes config.settle.rknnThread.toNat coder after.objects ∧
      Holds world.system.ledger coder.devices after.system.ledger ∧
      (coder.ready = true → Ready config.settle world coder after) := by
  have opened := V4l2Dmabuf.v4l2DmabufOpen_opened outcomes.capture world.system
  have nothing (capture : Capture) : Ended world.objects [] outcomes config.settle.rknnThread.toNat
      { dmabufCapture := capture } world.objects :=
    Ended.early ⟨[], rfl, Holds.refl world.objects⟩ rfl rfl
  unfold TransCoder.init
  simp only
  generalize V4l2Dmabuf.v4l2DmabufOpen outcomes.capture world.system = result at opened
  obtain ⟨_ | _, capture, system⟩ := result
  · -- the capture is closed already
    have closed : Holds world.system.ledger (V4l2Dmabuf.owned capture ++ []) system.ledger := by
      rw [V4l2Dmabuf.owned, opened.closed.fd, opened.closed.buffers]
      exact opened.holds
    exact ⟨nothing _, giveUp_devices closed, fun ready => by cases ready⟩
  · have alone : Holds world.system.ledger (V4l2Dmabuf.owned capture ++ []) system.ledger := by
      rw [List.append_nil]
      exact opened.holds
    have block := (Holds.refl world.objects).request .block outcomes.encodeData
    simp only
    split
    next => exact ⟨nothing _, giveUp_devices alone, fun ready => by cases ready⟩
    next sized =>
      cases data : outcomes.encodeData with
      | false => exact ⟨nothing _, giveUp_devices alone, fun ready => by cases ready⟩
      | true =>
        simp only [data, Ledger.request, ↓reduceIte, Bool.true_eq_false] at block ⊢
        have outputs := V4l2Dmabuf.outputs_holds outcomes.output
          ((config.settle.width * config.settle.height * 3).tdiv 2).toNat config.settle.rknnThread.toNat opened.holds
        have backed := @allocateOutputs_backed outcomes.output
          ((config.settle.width * config.settle.height * 3).tdiv 2).toNat config.settle.rknnThread.toNat [] _
          system.ledger rfl (fun _ member => by cases member)
        simp only [List.length_nil, List.nil_append, Nat.zero_add] at backed
        generalize allocateOutputs outcomes.output ((config.settle.width * config.settle.height * 3).tdiv 2).toNat
          config.settle.rknnThread.toNat 0 (List.replicate config.settle.rknnThread.toNat {}) system.ledger = allocated
          at outputs backed ⊢
        obtain ⟨all, buffers, devices⟩ := allocated
        simp only at outputs backed ⊢
        have first : Holds world.objects ((some (world.objects.fresh .block)).toList ++ [])
            (world.objects.acquire .block) := block
        cases all with
        | false =>
          exact ⟨Ended.early ⟨[], rfl, first⟩ rfl rfl, outputs, fun ready => by cases ready⟩
        | true =>
          obtain ⟨count, filled⟩ := backed rfl
          have working := @initWorking_ended _ _ _ outcomes config.settle capture _ buffers
            ⟨{ system with ledger := devices }, world.objects.acquire .block⟩ first
          simp only [Bool.true_eq_false, ↓reduceIte]
          generalize TransCoder.initWorking outcomes config.settle _ _ = last at working
          obtain ⟨coder, after⟩ := last
          obtain ⟨same, kept, ended, closing⟩ := working
          simp only at same kept closing
          rcases closing with ⟨closed, unready⟩ | ⟨open', queue, working⟩
          · refine ⟨ended, ?_, fun ready => by rw [unready] at ready; cases ready⟩
            have given := @V4l2Dmabuf.closing_holds _ capture { system with ledger := devices } buffers outputs
            rw [← closed, ← same] at given
            exact given
          · refine ⟨ended, ?_, ?_⟩
            · rw [TransCoder.devices, open', same, queue]
              exact outputs
            · intro ready
              obtain ⟨device, opened', _, queued⟩ := opened.device
              constructor
              case working => exact working ready
              case encodeData => rw [kept]; rfl
              case outputs => rw [same]; exact ⟨count, filled⟩
              case streaming => rw [open']; exact opened.streaming
              case sized =>
                rw [open']
                simp only [ne_eq, not_or, not_not] at sized
                exact sized
              case queued => exact ⟨device, by rw [open']; exact opened', by rw [queue, open']; exact queued⟩
              case buffers => rw [open']; exact opened.backed

/-- Whatever fails in `init`: after the destructor everything taken of the system was given back once,
and so was all else but the configuration of the encoder, the parts and the models of the
third tracker and the model file of a failed worker, each left in exactly the cases of `leaks`;
and `ready_` is set only where `run` finds its workers, buffers, encoder, pool and tracker. -/
theorem init_settles (outcomes : Outcomes) (config : Config Float) (world : World) :
    let (coder, after) := TransCoder.init outcomes config world
    Settled world.system.ledger (coder.delete after).system.ledger ∧
      (∃ leaked, leaked.map Resource.kind = leaks outcomes config.settle.rknnThread.toNat coder ∧
        Holds world.objects leaked (coder.delete after).objects) ∧
      (Settled world.objects (coder.delete after).objects ↔
        leaks outcomes config.settle.rknnThread.toNat coder = []) ∧
      (coder.ready = true → Ready config.settle world coder after) := by
  have ended := init_ended outcomes config world
  generalize TransCoder.init outcomes config world = result at ended ⊢
  obtain ⟨coder, after⟩ := result
  obtain ⟨⟨⟨leaked, kinds, holds⟩, backed, _⟩, devices, ready⟩ := ended
  rw [List.append_nil] at holds
  have objects := TransCoder.delete_objects backed holds
  rw [← List.append_nil coder.devices] at devices
  have system := TransCoder.delete_devices devices
  refine ⟨system.settled_iff.mpr rfl, ⟨leaked, kinds, objects⟩, ?_, ready⟩
  rw [objects.settled_iff, ← kinds, List.map_eq_nil_iff]

/-! ### `main` -/

/-- The most that the `init` of a camera leaves without anybody giving it back. -/
def leakable (camera : Outcomes × Config Float) : List Kind :=
  (if camera.1.encoder.leavesCfg then [.mppEncCfg] else []) ++
    (if camera.2.settle.tracker = .deepsort then DeepSortWrapper.leaks else []) ++
    (if (List.range camera.2.settle.rknnThread.toNat).any fun i => (camera.1.worker i).leavesFile then [.file] else [])

theorem leaks_sublist {coder : TransCoder} {objects : Ledger Kind}
    (ended : Ended before held outcomes config.settle.rknnThread.toNat coder objects)
    (working : coder.ready = true → Working config.settle.tracker config.settle.rknnThread.toNat coder) :
    (leaks outcomes config.settle.rknnThread.toNat coder).Sublist (leakable (outcomes, config)) := by
  have part {one two : Prop} [Decidable one] [Decidable two] (kinds : List Kind) (implies : one → two) :
      (if one then kinds else []).Sublist (if two then kinds else []) := by
    split
    next holds => rw [if_pos (implies holds)]
    next => exact List.nil_sublist _
  apply List.Sublist.append
  · apply List.Sublist.append
    · exact part _ fun leaves => (Bool.and_eq_true_iff.mp leaves).2
    · exact part _ fun some => (working (ended.last some)).tracking.deepSortTracker.mp some
  · apply part
    intro leaves
    obtain ⟨short, leaves⟩ := Bool.and_eq_true_iff.mp leaves
    have inside := of_decide_eq_true (Bool.and_eq_true_iff.mp short).2
    exact List.any_eq_true.mpr ⟨_, List.mem_range.mpr inside, leaves⟩

/-- The transcoder that `init` made of this camera, and the world it found and left. -/
def Started (camera : Outcomes × Config Float) (coder : TransCoder) : Prop :=
  ∃ world after, TransCoder.init camera.1 camera.2 world = (coder, after) ∧ Ready camera.2.settle world coder after

theorem startAll_chosen (cameras : List (Outcomes × Config Float)) (world : World) :
    ∃ chosen, chosen.Sublist cameras ∧ List.Forall₂ Started chosen (startAll cameras world).1 := by
  induction cameras generalizing world with
  | nil => exact ⟨[], .slnil, .nil⟩
  | cons camera rest ih =>
    have ended := init_ended camera.1 camera.2 world
    unfold startAll
    generalize made : TransCoder.init camera.1 camera.2 world = result at ended ⊢
    obtain ⟨coder, middle⟩ := result
    obtain ⟨_, _, ready⟩ := ended
    simp only
    split
    next =>
      obtain ⟨chosen, sublist, working⟩ := ih (coder.delete middle)
      exact ⟨chosen, .cons _ sublist, working⟩
    next isReady =>
      obtain ⟨chosen, sublist, working⟩ := ih middle
      have own := ready (Bool.eq_true_of_not_eq_false isReady)
      exact ⟨camera :: chosen, .cons_cons _ sublist, .cons ⟨world, middle, made, own⟩ working⟩

theorem startAll_holds (cameras : List (Outcomes × Config Float)) (world : World) :
    let (coders, after) := startAll cameras world
    Holds world.system.ledger (coders.flatMap TransCoder.devices) after.system.ledger ∧
      (∃ leaked, (leaked.map Resource.kind).Sublist (cameras.flatMap leakable) ∧
        Holds world.objects (coders.flatMap TransCoder.objects ++ leaked) after.objects) ∧
      ∀ coder ∈ coders, coder.ready = true ∧ ∀ yolo ∈ coder.rkyoloList, yolo.Backed := by
  induction cameras generalizing world with
  | nil =>
    refine ⟨Holds.refl _, ⟨[], List.nil_sublist _, Holds.refl _⟩, ?_⟩
    exact fun _ member => by cases member
  | cons camera rest ih =>
    obtain ⟨outcomes, config⟩ := camera
    have ended := init_ended outcomes config world
    unfold startAll
    generalize TransCoder.init outcomes config world = result at ended ⊢
    obtain ⟨coder, middle⟩ := result
    obtain ⟨own, devices, ready⟩ := ended
    have most := leaks_sublist own fun isReady => (ready isReady).working
    obtain ⟨⟨leaked, kinds, holds⟩, backed, _⟩ := own
    rw [List.append_nil] at holds
    rw [← kinds] at most
    simp only
    split
    next unready =>
      have rested := ih (coder.delete middle)
      generalize startAll rest (coder.delete middle) = result at rested ⊢
      obtain ⟨coders, after⟩ := result
      obtain ⟨system, ⟨others, later, objects⟩, sound⟩ := rested
      rw [← List.append_nil coder.devices] at devices
      have gone := (TransCoder.delete_devices devices).trans system
      have freed := (TransCoder.delete_objects backed holds).trans objects
      refine ⟨gone, ⟨leaked ++ others, ?_, ?_⟩, sound⟩
      · rw [List.map_append, List.flatMap_cons]
        exact most.append later
      · apply recount freed
        intro resource
        simp only [List.count_append]
        omega
    next isReady =>
      have rested := ih middle
      generalize startAll rest middle = result at rested ⊢
      obtain ⟨coders, after⟩ := result
      obtain ⟨system, ⟨others, later, objects⟩, sound⟩ := rested
      have set := Bool.eq_true_of_not_eq_false isReady
      refine ⟨devices.trans system, ⟨leaked ++ others, ?_, ?_⟩, ?_⟩
      · rw [List.map_append, List.flatMap_cons]
        exact most.append later
      · apply recount (holds.trans objects)
        intro resource
        simp only [List.flatMap_cons, List.count_append]
        omega
      · intro other member
        cases member with
        | head => exact ⟨set, backed⟩
        | tail _ later => exact sound other later

/-- However the cameras of a configuration come up, the server gets ready transcoders only, in the
order of their sections, and what is held after the loop is what they hold, but for the leaks
of `init`, each at most once: those that were skipped have given back the rest. -/
theorem all_started (cameras : List (Outcomes × Config Float)) (world : World) :
    let (coders, after) := startAll cameras world
    Holds world.system.ledger (coders.flatMap TransCoder.devices) after.system.ledger ∧
      (∃ leaked, (leaked.map Resource.kind).Sublist (cameras.flatMap leakable) ∧
        Holds world.objects (coders.flatMap TransCoder.objects ++ leaked) after.objects) ∧
      (∀ coder ∈ coders, coder.ready = true ∧ ∀ yolo ∈ coder.rkyoloList, yolo.Backed) ∧
      ∃ chosen, chosen.Sublist cameras ∧ List.Forall₂ Started chosen coders := by
  obtain ⟨system, objects, sound⟩ := startAll_holds cameras world
  exact ⟨system, objects, sound, startAll_chosen cameras world⟩

end Yolov5Rknn.TransCoderInit
