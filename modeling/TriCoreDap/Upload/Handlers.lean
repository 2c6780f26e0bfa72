import TriCoreDap.Library.Sender
import TriCoreDap.Upload.Acceptance

/-!
# The handlers of the flash page

Uploads and starts come one at a time over HTTP; the programming runs in a task of
its own.  An upload that is broken off leaves the image as it is by then.
-/

namespace TriCoreDap
namespace Upload

open Flash Ucb HexImage

/-- An upload request, with what the memory and the connection let through. -/
structure UploadRequest where
  authorised : Bool
  /-- The allocations of `s_image.data`, `s_image.ucb` and the receive buffer. -/
  dataFits : Bool
  ucbFits : Bool
  bufferFits : Bool
  /-- What each `httpd_req_recv` gave. -/
  chunks : List (List Byte)
  /-- All of `content_len` came in. -/
  whole : Bool

/-- A start request, with the values of its query. -/
structure StartRequest where
  authorised : Bool
  slow : Option Int
  full : Option Int
  ucb : Option Int
  /-- `xTaskCreate` gave `pdPASS`. -/
  created : Bool

/-- What happens to the flash page. -/
inductive Happening
  | upload (request : UploadRequest)
  | start (request : StartRequest)
  /-- `flash_task` takes the image and calls `tricore_flash_write`. -/
  | begin
  /-- `flash_task` ends. -/
  | done

/-- The replies, and the region that `flash_task` hands to `tricore_flash_write`. -/
inductive Reply
  | unauthorised
  | refused (status text : String)
  | ok (records bytes skipped lowest highest ucbBytes : Nat) (slots : List Nat)
  | started
  | writes (region : FlashRegion)
  | none

/-- `s_flash_task`. -/
inductive FlashTask
  | none
  | created
  | running
  deriving DecidableEq, Repr

/-- The state of the flash page. -/
structure Flasher where
  hasData : Bool
  hasUcb : Bool
  image : HexImage
  task : FlashTask
  blockwrite : Bool
  differential : Bool
  ucb : Option UcbImage
  /-- The last upload, if it came in whole and was accepted. -/
  last : Option (List (List Byte))

namespace Flasher

/-- The statics after boot, zero. -/
def booted : Flasher where
  hasData := false
  hasUcb := false
  image :=
    { HexImage.reset with
      data := fun _ => 0
      lowest := 0 }
  task := .none
  blockwrite := true
  differential := true
  ucb := none
  last := none

/-- `image_reset`: the buffers are allocated once. -/
def imageReset (flasher : Flasher) (request : UploadRequest) : Option Flasher :=
  if !flasher.hasData ∧ !request.dataFits then .none
  else if !flasher.hasUcb ∧ !request.ucbFits then .none
  else .some { flasher with hasData := true, hasUcb := true, image := .reset }

/-- The slots that the reply of an upload names. -/
def presentSlots (image : Image) : List Nat :=
  (List.range ucbSlots).filter fun slot => image.ucbPresent.testBit slot

/-- The reply to an upload that came in whole. -/
def uploadReply (image : Image) : Reply :=
  if image.bad then .refused "400 Bad Request" ("rejected: " ++ image.error ++ "\n")
  else if image.bytes = 0 then
    .refused "400 Bad Request" "rejected: nothing in this file lands in program flash\n"
  else
    .ok image.records image.bytes image.skipped image.lowest image.highest image.ucbBytes
      (presentSlots image)

/-- `flash_upload_handler`. -/
def uploadHandler (flasher : Flasher) (request : UploadRequest) : Reply × Flasher :=
  if !request.authorised then (.unauthorised, flasher)
  else if flasher.task ≠ .none then
    (.refused "409 Conflict" "a flash is already running\n", flasher)
  else
    match flasher.imageReset request with
    | .none =>
        (.refused "503 Service Unavailable" "no memory for the image\n",
          { flasher with
            hasData := flasher.hasData || request.dataFits
            last := none })
    | .some flasher =>
        if !request.bufferFits then
          (.refused "503 Service Unavailable" "no buffer for the upload\n",
            { flasher with last := none })
        else
          let image := request.chunks.foldl feed flasher.image
          if !request.whole then
            (.refused "400 Bad Request" "the upload stopped early\n",
              { flasher with image := image, last := none })
          else
            let image := image.finish
            (uploadReply image.toImage,
              { flasher with
                image := image
                last := if !image.bad ∧ image.bytes ≠ 0 then some request.chunks else none })

/-- `atoi(val)` of a key of the query is not zero. -/
def isSet (value : Option Int) : Bool := value.getD 0 ≠ 0

/-- `flash_start_handler`. -/
def startHandler (flasher : Flasher) (request : StartRequest) : Reply × Flasher :=
  if !request.authorised then (.unauthorised, flasher)
  else if flasher.task ≠ .none then
    (.refused "409 Conflict" "a flash is already running\n", flasher)
  else if !flasher.hasData ∨ flasher.image.bytes = 0 ∨ flasher.image.bad then
    (.refused "400 Bad Request" "upload an image first\n", flasher)
  else
    let ucbImage : UcbImage := ⟨flasher.image.ucb, flasher.image.ucbPresent⟩
    let flasher :=
      { flasher with
        blockwrite := !isSet request.slow
        differential := !isSet request.full
        ucb := if isSet request.ucb then some ucbImage else none }
    if !request.created then
      (.refused "503 Service Unavailable" "could not start the flash task\n",
        { flasher with ucb := none })
    else (.started, { flasher with task := .created })

/-- A step of the flash page.  The task takes the image once, and ends once. -/
def step (flasher : Flasher) : Happening → Reply × Flasher
  | .upload request => flasher.uploadHandler request
  | .start request => flasher.startHandler request
  | .begin =>
      match flasher.task with
      | .created => (.writes (flashRegion flasher.image.toImage), { flasher with task := .running })
      | _ => (.none, flasher)
  | .done =>
      match flasher.task with
      | .running => (.none, { flasher with task := .none, ucb := none })
      | _ => (.none, flasher)

/-- The state after a step. -/
def next (flasher : Flasher) (happening : Happening) : Flasher := (flasher.step happening).2

/-- The upload request gets as far as its first byte. -/
def LetsIn (flasher : Flasher) (request : UploadRequest) : Prop :=
  request.authorised = true ∧ flasher.task = .none ∧
    (flasher.imageReset request).isSome = true ∧ request.bufferFits = true

/-- An upload that is broken off has not come far enough to look like one that
came in whole. -/
def Harmless (flasher : Flasher) : Happening → Prop
  | .upload request =>
      flasher.LetsIn request → request.whole = false →
        ¬Acceptable (pieces false [] request.chunks.flatten)
  | _ => True

/-- Only the last upload is programmed, and only if it came in whole and was
accepted. -/
structure Safe (flasher : Flasher) : Prop where
  starts : flasher.last = none → ∀ request,
    (flasher.startHandler request).1 ≠ .started ∧ (flasher.startHandler request).2 = flasher
  writes : ∀ region, (flasher.step .begin).1 = .writes region →
    ∃ chunks, flasher.last = some chunks ∧ (upload true chunks).toImage.Accepted ∧
      region = flashRegion (upload true chunks).toImage

/-- The image is that of the last upload, or cannot be programmed. -/
structure Settled (flasher : Flasher) : Prop where
  none : flasher.last = none →
    flasher.task = .none ∧ (flasher.image.bytes = 0 ∨ flasher.image.bad = true)
  some : ∀ chunks, flasher.last = some chunks →
    flasher.hasData = true ∧ flasher.hasUcb = true ∧ flasher.image = upload true chunks ∧
      flasher.image.toImage.Accepted

variable {flasher flasher' : Flasher} {chunks : List (List Byte)}

theorem booted_settled : booted.Settled where
  none _ := ⟨rfl, Or.inl rfl⟩
  some _ last := by cases last

/-! ## Uploads -/

theorem imageReset_spec
    {request : UploadRequest}
    (reset : flasher.imageReset request = .some flasher') :
    flasher' = { flasher with hasData := true, hasUcb := true, image := .reset } := by
  unfold imageReset at reset
  split_ifs at reset
  exact (Option.some.inj reset).symm

/-- What an upload that is let in leaves behind. -/
theorem uploadHandler_letsIn
    {request : UploadRequest}
    (letsIn : flasher.LetsIn request) :
    (flasher.uploadHandler request).2 =
      { flasher with
        hasData := true
        hasUcb := true
        image := upload request.whole request.chunks
        last :=
          if request.whole ∧ (upload true request.chunks).bad = false ∧
            (upload true request.chunks).bytes ≠ 0 then some request.chunks else .none } := by
  obtain ⟨authorised, idle, resets, fits⟩ := letsIn
  obtain ⟨flasher', reset⟩ := Option.isSome_iff_exists.mp resets
  cases whole : request.whole with
  | false =>
      simp [uploadHandler, authorised, idle, reset, fits, whole, imageReset_spec reset, upload]
  | true =>
      simp [uploadHandler, authorised, idle, reset, fits, whole, imageReset_spec reset, upload]

/-- What any other upload leaves behind. -/
theorem uploadHandler_other
    {request : UploadRequest}
    (other : ¬flasher.LetsIn request) :
    (flasher.uploadHandler request).2 = flasher ∨
      flasher.task = .none ∧ flasher.imageReset request = .none ∧
        (flasher.uploadHandler request).2 =
          { flasher with
            hasData := flasher.hasData || request.dataFits
            last := .none } ∨
      flasher.task = .none ∧ (flasher.uploadHandler request).2 =
        { flasher with hasData := true, hasUcb := true, image := .reset, last := .none } := by
  unfold LetsIn at other
  by_cases authorised : request.authorised = true
  · by_cases idle : flasher.task = .none
    · right
      cases reset : flasher.imageReset request with
      | none =>
          left
          simp [uploadHandler, authorised, idle, reset]
      | some flasher' =>
          right
          have noBuffer : request.bufferFits = false := by
            simpa [authorised, idle, reset] using other
          simp [uploadHandler, authorised, idle, reset, noBuffer, imageReset_spec reset]
    · left
      simp [uploadHandler, authorised, idle]
  · left
    simp [uploadHandler, authorised]

theorem Settled.upload
    (settled : flasher.Settled)
    {request : UploadRequest}
    (harmless : flasher.Harmless (.upload request)) :
    (flasher.uploadHandler request).2.Settled := by
  by_cases letsIn : flasher.LetsIn request
  · rw [uploadHandler_letsIn letsIn]
    constructor
    · intro last
      refine ⟨letsIn.2.1, ?_⟩
      have unaccepted : ¬(Upload.upload request.whole request.chunks).toImage.Accepted := by
        cases whole : request.whole with
        | false =>
            rw [accepted_iff]
            exact harmless letsIn whole
        | true =>
            simpa [whole, Image.Accepted] using last
      by_contra startable
      rw [not_or, Bool.not_eq_true] at startable
      exact unaccepted ⟨startable.2, startable.1⟩
    · intro chunks last
      dsimp only at last
      split_ifs at last with accepted
      obtain ⟨whole, good, some⟩ := accepted
      obtain rfl := Option.some.inj last
      exact ⟨rfl, rfl, by rw [whole], by rw [whole]; exact ⟨good, some⟩⟩
  · rcases uploadHandler_other letsIn with same | ⟨idle, fails, same⟩ | ⟨idle, same⟩
    · rw [same]
      exact settled
    · rw [same]
      constructor
      · intro _
        refine ⟨idle, ?_⟩
        cases last : flasher.last with
        | none => exact (settled.none last).2
        | some chunks =>
            obtain ⟨hasData, hasUcb, -, -⟩ := settled.some chunks last
            simp [imageReset, hasData, hasUcb] at fails
      · intro _ last
        cases last
    · rw [same]
      constructor
      · exact fun _ => ⟨idle, Or.inl rfl⟩
      · intro _ last
        cases last

/-! ## Starts and the task -/

/-- The condition of `flash_start_handler` on the image. -/
theorem Settled.startable_iff (settled : flasher.Settled) :
    (flasher.hasData = false ∨ flasher.image.bytes = 0 ∨ flasher.image.bad = true) ↔
      flasher.last = .none := by
  cases last : flasher.last with
  | none => exact iff_of_true (Or.inr (settled.none last).2) rfl
  | some chunks =>
      obtain ⟨hasData, -, -, good, some⟩ := settled.some chunks last
      simp [hasData, good, some]

/-- A start is refused, or the image can be programmed and stays as it is. -/
theorem startHandler_cases (flasher : Flasher) (request : StartRequest) :
    ((flasher.startHandler request).1 ≠ .started ∧ (flasher.startHandler request).2 = flasher) ∨
      ¬(flasher.hasData = false ∨ flasher.image.bytes = 0 ∨ flasher.image.bad = true) ∧
        ∃ task blockwrite differential ucb, (flasher.startHandler request).2 =
          { flasher with
            task := task
            blockwrite := blockwrite
            differential := differential
            ucb := ucb } := by
  by_cases authorised : request.authorised = true
  · by_cases idle : flasher.task = .none
    · by_cases refused : flasher.hasData = false ∨ flasher.image.bytes = 0 ∨ flasher.image.bad = true
      · left
        simp [startHandler, authorised, idle, refused]
      · right
        refine ⟨refused, ?_⟩
        cases created : request.created with
        | false =>
            refine ⟨flasher.task, !isSet request.slow, !isSet request.full, none, ?_⟩
            simp [startHandler, authorised, idle, refused, created]
        | true =>
            refine ⟨.created, !isSet request.slow, !isSet request.full,
              if isSet request.ucb then some ⟨flasher.image.ucb, flasher.image.ucbPresent⟩
              else none, ?_⟩
            simp [startHandler, authorised, idle, refused, created]
    · left
      simp [startHandler, authorised, idle]
  · left
    simp [startHandler, authorised]

theorem Settled.start (settled : flasher.Settled) (request : StartRequest) :
    (flasher.startHandler request).2.Settled := by
  rcases flasher.startHandler_cases request with ⟨-, same⟩ | ⟨startable, _, _, _, _, same⟩
  · rw [same]
    exact settled
  · rw [same]
    constructor
    · intro last
      exact absurd (settled.startable_iff.mpr last) startable
    · exact settled.some

theorem Settled.step
    (settled : flasher.Settled)
    {happening : Happening}
    (harmless : flasher.Harmless happening) : (flasher.next happening).Settled := by
  unfold Flasher.next
  cases happening with
  | upload request => exact settled.upload harmless
  | start request => exact settled.start request
  | begin =>
      unfold Flasher.step
      cases task : flasher.task with
      | none => exact settled
      | running => exact settled
      | created =>
          constructor
          · intro last
            have idle := (settled.none last).1
            rw [task] at idle
            cases idle
          · exact settled.some
  | done =>
      unfold Flasher.step
      cases task : flasher.task with
      | none => exact settled
      | created => exact settled
      | running => exact ⟨fun last => ⟨rfl, (settled.none last).2⟩, settled.some⟩

theorem Settled.safe (settled : flasher.Settled) : flasher.Safe := by
  constructor
  · intro last request
    have refused := settled.startable_iff.mpr last
    rcases flasher.startHandler_cases request with same | ⟨startable, -⟩
    · exact same
    · exact absurd refused startable
  · intro region writes
    unfold Flasher.step at writes
    cases task : flasher.task with
    | none =>
        rw [task] at writes
        cases writes
    | running =>
        rw [task] at writes
        cases writes
    | created =>
        rw [task] at writes
        cases last : flasher.last with
        | none =>
            have idle := (settled.none last).1
            rw [task] at idle
            cases idle
        | some chunks =>
            obtain ⟨-, -, image, accepted⟩ := settled.some chunks last
            rw [image] at writes accepted
            exact ⟨chunks, rfl, accepted, (Reply.writes.inj writes).symm⟩

/-! ## Runs -/

/-- After a harmful step a start is let through. -/
theorem not_safe_of_harmful
    {happening : Happening}
    (harmful : ¬flasher.Harmless happening) : ¬(flasher.next happening).Safe := by
  cases happening with
  | start request => exact absurd True.intro harmful
  | begin => exact absurd True.intro harmful
  | done => exact absurd True.intro harmful
  | upload request =>
      simp only [Harmless, Classical.not_imp, not_not] at harmful
      obtain ⟨letsIn, broken, acceptable⟩ := harmful
      rw [← accepted_iff] at acceptable
      obtain ⟨good, some⟩ := acceptable
      intro safe
      have idle := letsIn.2.1
      have left := uploadHandler_letsIn letsIn
      rw [broken] at left
      have refused := safe.starts (by simp [Flasher.next, Flasher.step, left]) ⟨true, none, none, none, true⟩
      apply refused.1
      simp [Flasher.next, Flasher.step, left, startHandler, idle, good, some]

/-- For every sequence of uploads, starts and task steps: only accepted uploads are
programmed exactly when every upload that is broken off is harmless. -/
theorem only_accepted_programmed_iff (happenings : List Happening) :
    (∀ flasher ∈ visits next booted happenings, flasher.Safe) ↔
      Along next Harmless booted happenings := by
  apply visits_good_iff
  · exact fun _ _ settled harmless => Settled.step settled harmless
  · exact fun _ settled => Settled.safe settled
  · exact fun _ _ _ harmful => not_safe_of_harmful harmful
  · exact booted_settled

/-- An upload that is broken off after its first data record. -/
def brokenOff : UploadRequest :=
  ⟨true, true, true, true, [recordLine 0 4 [0xA0, 0x00], recordLine 0 0 [1, 2]], false⟩

/-- It is programmed all the same. -/
theorem broken_off_programmed :
    ¬∀ flasher ∈ visits next booted [.upload brokenOff], flasher.Safe := by
  intro safe
  have harmful : ¬booted.Harmless (.upload brokenOff) := by
    intro harmless
    apply harmless ⟨rfl, rfl, rfl, rfl⟩ rfl
    rw [← accepted_iff]
    exact ⟨by decide +kernel, by decide +kernel⟩
  apply not_safe_of_harmful harmful
  apply safe
  exact List.mem_cons_of_mem _ List.mem_cons_self

end Flasher
end Upload
end TriCoreDap
