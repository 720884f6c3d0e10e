import Memmy.Conversation.SavedTurn

/-! # When a turn is saved exactly

The index that `stateSave` cuts the transcript at assumes that the request holds the user message of
the turn as a message of its own. A history that ends with a user message breaks that: the two are
merged, and the cut takes the first message of the answer.

* `saveTurn_messages`: what is saved of a part of a transcript, each message once and in order.
* `savedPart`: what is saved behind the session, in the three cases of the cut.
* `savedExactly_iff`: the turn is saved exactly if the two are not merged, or the message it costs
  would not be saved. -/

namespace Memmy.Conversation.ExactSave

open Lib.Text Conversation.Transcript Conversation.Trim List Option
open Conversation.Replay Conversation.SavedTurn

variable (loop : AgentLoop) (turn : Turn) (s : Session Entry ℕ)

/-! ### What is saved of a transcript -/

/-- The messages of a transcript as they are saved. -/
def stored (o : SaveOptions) (now : String) (messages : List Entry) : List Entry :=
  messages.filterMap (storeEntry loop o now)

/-- The index of the last assistant message. -/
def lastAssistant : List Entry → Option ℕ
  | [] => none
  | m :: ms =>
    match lastAssistant ms with
    | some i => some (i + 1)
    | none => if isAssistantEntry m then some 0 else none

/-- The answer of a failed turn without one. -/
def withError (o : SaveOptions) (now : String) (entries : List Entry) : List Entry :=
  match o.modelError, lastAssistant entries with
  | some error, none => entries ++ [errorEntry o now error]
  | _, _ => entries

/-- The last answer carries the latency and the error of the turn. -/
def markLast (o : SaveOptions) (entries : List Entry) : List Entry :=
  match lastAssistant entries with
  | some i => entries.modify i (markAnswer o)
  | none => entries

/-- **What a turn leaves of the messages of its run**: each that is saved, once and in order. -/
def savedForm (o : SaveOptions) (now : String) (messages : List Entry) : List Entry :=
  markLast o (withError o now (stored loop o now messages))

variable {entries : List Entry} {media : List String}

theorem lastAssistant_eq_none : lastAssistant entries = none ↔ ∀ m ∈ entries, isAssistantEntry m = false := by
  induction entries with
  | nil => simp [lastAssistant]
  | cons m ms ih =>
    unfold lastAssistant
    cases h : lastAssistant ms with
    | some i =>
      rw [h] at ih
      simp only [reduceCtorEq, false_iff, forall_mem_cons] at ih ⊢
      exact fun hall => ih hall.2
    | none =>
      have hms := ih.mp h
      cases hm : isAssistantEntry m with
      | true => simp [hm]
      | false => simpa [hm] using hms

theorem lastAssistant_append_of_none (h : lastAssistant entries = none)
    {m : Entry} (hm : isAssistantEntry m = true) : lastAssistant (entries ++ [m]) = some entries.length := by
  induction entries with
  | nil => simp [lastAssistant, hm]
  | cons e es ih =>
    have hes : lastAssistant es = none :=
      lastAssistant_eq_none.mpr fun x hx => lastAssistant_eq_none.mp h x (mem_cons_of_mem _ hx)
    rw [cons_append, lastAssistant, ih hes]
    rfl

theorem foldl_saveMessage (o : SaveOptions) (now : String) :
    ∀ (messages : List Entry) (st : Saving),
      messages.foldl (saveMessage loop o now) st =
        { messages := st.messages ++ stored loop o now messages
          lastAssistantIdx :=
            match lastAssistant (stored loop o now messages) with
            | some i => some (st.messages.length + i)
            | none => st.lastAssistantIdx }
  | [], st => by simp [stored, lastAssistant]
  | m :: ms, st => by
    rw [foldl_cons, foldl_saveMessage o now ms]
    unfold saveMessage stored
    cases hm : storeEntry loop o now m with
    | none => rw [filterMap_cons_none hm]
    | some entry =>
      rw [filterMap_cons_some hm]
      simp only [Saving.push, lastAssistant, append_assoc, singleton_append, length_append, length_singleton]
      cases lastAssistant (ms.filterMap (storeEntry loop o now)) with
      | some i =>
        dsimp only
        rw [Nat.add_assoc, Nat.add_comm 1 i]
      | none => cases isAssistantEntry entry <;> rfl

theorem isAssistantEntry_errorEntry (o : SaveOptions) (now : String) (error : ModelError) :
    isAssistantEntry (errorEntry o now error) = true := rfl

/-- **A transcript is saved behind the session from the cut on.** -/
theorem saveTurn_messages (o : SaveOptions) (now : String) (messages : List Entry) (skip : ℕ) :
    (saveTurn loop o now s messages skip).messages =
      s.messages ++ savedForm loop o now (messages.drop skip) := by
  unfold saveTurn savedForm
  rw [foldl_saveMessage]
  generalize stored loop o now (messages.drop skip) = entries
  have hmark : ∀ (es : List Entry) (i : ℕ), (s.messages ++ es).modify (s.messages.length + i)
      (markAnswer o) = s.messages ++ es.modify i (markAnswer o) := fun es i =>
    modifyTailIdx_add (List.modifyHead (markAnswer o)) i s.messages es
  cases herror : o.modelError with
  | none =>
    simp only [saveModelError, withError, herror, markLast]
    cases lastAssistant entries with
    | some i => exact hmark entries i
    | none => rfl
  | some error =>
    cases hlast : lastAssistant entries with
    | some i =>
      simp only [saveModelError, withError, herror, markLast, hlast]
      exact hmark entries i
    | none =>
      simp only [saveModelError, withError, herror, markLast, hlast, Saving.push,
        isAssistantEntry_errorEntry, if_true, length_append,
        lastAssistant_append_of_none hlast (isAssistantEntry_errorEntry o now error)]
      rw [append_assoc]
      exact hmark _ _

theorem length_markLast (o : SaveOptions) (entries : List Entry) :
    (markLast o entries).length = entries.length := by
  unfold markLast
  split
  · exact length_modify _ _ _
  · rfl

/-! ### The request and the cut -/

/-- The user message of the turn is merged into the message before it. -/
def Merged : Prop := (replayed loop turn s).getLast?.map (·.role) = some "user"

instance : Decidable (Merged loop turn s) := by unfold Merged; infer_instance

theorem builtSession_messages : (builtSession turn s).messages = s.messages ++ (currentEntry turn).toList := by
  unfold builtSession persistUser
  cases currentEntry turn with
  | none => simp
  | some entry => rfl

theorem userMessage_spec {now : String} {msg : InboundMessage} {time : Option String} {u : Entry}
    (h : userMessage now msg time = some u) :
    isUserEntry u = true ∧ u.commandMessage = false ∧ (hasText msg = true ∨ msg.media ≠ []) := by
  unfold userMessage at h
  split_ifs at h with hsays
  cases h
  refine ⟨rfl, rfl, ?_⟩
  by_cases ht : hasText msg = true
  · exact Or.inl ht
  · refine Or.inr fun hm => hsays ⟨by simpa using ht, ?_⟩
    rw [mediaPaths, hm, filter_nil]

theorem currentEntry_spec {u : Entry} (h : currentEntry turn = some u) :
    isUserEntry u = true ∧ u.commandMessage = false ∧ userPersistedEarly turn = true := by
  unfold currentEntry at h
  unfold userPersistedEarly currentEntry
  cases hadmission : turn.admission with
  | plain =>
    rw [hadmission] at h
    exact ⟨(userMessage_spec h).1, (userMessage_spec h).2.1, by dsimp only at h ⊢; rw [h]; rfl⟩
  | goalContinuation =>
    rw [hadmission] at h
    rw [h]
    unfold goalContinuationMessage at h
    split_ifs at h
    cases h
    exact ⟨rfl, rfl, rfl⟩
  | goal entry =>
    rw [hadmission] at h
    cases entry with
    | none =>
      obtain ⟨hu, hc, hsays⟩ := userMessage_spec h
      refine ⟨hu, hc, ?_⟩
      rcases hsays with ht | hm
      · simp [ht]
      · simp [hm]
    | some entry => exact ⟨(userMessage_spec h).1, (userMessage_spec h).2.1, rfl⟩

theorem hasText_of_not_early (h : userPersistedEarly turn = false) :
    currentEntry turn = none ∧ hasText turn.msg = false := by
  have hnone : currentEntry turn = none := by
    cases hc : currentEntry turn with
    | none => rfl
    | some u =>
      rw [(currentEntry_spec turn hc).2.2] at h
      cases h
  refine ⟨hnone, ?_⟩
  unfold currentEntry at hnone
  unfold userPersistedEarly at h
  cases hadmission : turn.admission with
  | plain =>
    rw [hadmission] at hnone
    dsimp only [userMessage] at hnone
    split_ifs at hnone with hsays
    exact hsays.1
  | goalContinuation =>
    rw [hadmission] at hnone
    dsimp only [goalContinuationMessage] at hnone
    split_ifs at hnone with hsays
    exact hsays
  | goal entry =>
    rw [hadmission] at h
    simp only [Bool.or_eq_false_iff] at h
    exact h.1.2

theorem length_buildMessages_of_merged (h : Merged loop turn s) :
    (buildMessages loop turn (replayed loop turn s)).length = 1 + (replayed loop turn s).length := by
  obtain ⟨last, hlast, hrole⟩ := map_eq_some_iff.mp h
  obtain ⟨front, hfront⟩ := getLast?_eq_some_iff.mp hlast
  unfold buildMessages
  dsimp only
  rw [hfront, ← cons_append, getLast?_concat]
  dsimp only
  rw [if_pos (by rw [hrole]; rfl), dropLast_concat]
  simp only [length_append, length_cons, length_nil]
  omega

theorem buildMessages_of_not_merged (h : ¬Merged loop turn s) :
    buildMessages loop turn (replayed loop turn s) =
      systemMessage loop :: replayed loop turn s ++ [requestMessage loop turn] := by
  unfold buildMessages
  dsimp only
  cases hlast : (replayed loop turn s).getLast? with
  | none =>
    rw [getLast?_eq_none_iff.mp hlast]
    exact if_neg (show ¬("system" = "user") by decide)
  | some last =>
    have hrole : ¬last.role = "user" := fun he => h (by unfold Merged; rw [hlast, map_some, he])
    rw [getLast?_cons, hlast]
    exact if_neg hrole

/-- **The part of the transcript that is saved.** -/
theorem savedPart :
    (ranTurn loop turn s).allMessages.drop (saveSkip (ranTurn loop turn s)) =
      if Merged loop turn s then
        if userPersistedEarly turn then turn.appended.drop 1 else turn.appended
      else
        if userPersistedEarly turn then turn.appended
        else requestMessage loop turn :: turn.appended := by
  have hall : (ranTurn loop turn s).allMessages =
      buildMessages loop turn (replayed loop turn s) ++ turn.appended := rfl
  have hskip : saveSkip (ranTurn loop turn s) =
      1 + (replayed loop turn s).length + if userPersistedEarly turn then 1 else 0 := rfl
  rw [hall, hskip]
  by_cases hmerged : Merged loop turn s
  · rw [if_pos hmerged, ← length_buildMessages_of_merged loop turn s hmerged, drop_append]
    by_cases hearly : userPersistedEarly turn = true
    · rw [if_pos hearly, if_pos hearly, drop_eq_nil_of_le (by omega), nil_append]
      congr 1
      omega
    · rw [if_neg hearly, if_neg hearly, drop_eq_nil_of_le (by omega), nil_append]
      simp
  · rw [if_neg hmerged, buildMessages_of_not_merged loop turn s hmerged]
    have hlen : (systemMessage loop :: replayed loop turn s).length =
        1 + (replayed loop turn s).length := by simp only [length_cons]; omega
    rw [append_assoc, ← hlen, drop_append, drop_eq_nil_of_le (by omega), nil_append]
    by_cases hearly : userPersistedEarly turn = true
    · rw [if_pos hearly, if_pos hearly]
      simp
    · rw [if_neg hearly, if_neg hearly]
      simp

/-! ### One message more or less -/

theorem storeEntry_role {o : SaveOptions} {now : String} {m entry : Entry}
    (h : storeEntry loop o now m = some entry) : entry.role = m.role := by
  unfold storeEntry at h
  split_ifs at h with hblank hrole
  · obtain ⟨content, -, rfl⟩ := map_eq_some_iff.mp h
    rfl
  · obtain ⟨content, -, rfl⟩ := map_eq_some_iff.mp h
    rfl

/-- The message is a failed turn's only answer and says what would stand in for it. -/
def StandsIn (o : SaveOptions) (now : String) (n : Entry) (rest : List Entry) : Prop :=
  stored loop o now rest = [] ∧ ∃ entry, storeEntry loop o now n = some entry ∧
    isAssistantEntry entry = true ∧ ∃ error, o.modelError = some error ∧
      markAnswer o entry = markAnswer o (errorEntry o now error)

theorem length_withError (o : SaveOptions) (now : String) (entries : List Entry) :
    (withError o now entries).length = entries.length ∨
      (withError o now entries).length = entries.length + 1 ∧ lastAssistant entries = none ∧
        ∃ error, o.modelError = some error ∧ withError o now entries = entries ++ [errorEntry o now error] := by
  unfold withError
  cases herror : o.modelError with
  | none => exact Or.inl rfl
  | some error =>
    cases hlast : lastAssistant entries with
    | some i => exact Or.inl rfl
    | none => exact Or.inr ⟨by simp, rfl, error, rfl, rfl⟩

theorem withError_of_assistant (o : SaveOptions) (now : String) {entry : Entry}
    (entries : List Entry) (h : isAssistantEntry entry = true) :
    withError o now (entry :: entries) = entry :: entries := by
  unfold withError
  cases hlast : lastAssistant (entry :: entries) with
  | some i => cases o.modelError <;> rfl
  | none =>
    have := lastAssistant_eq_none.mp hlast entry mem_cons_self
    rw [h] at this
    cases this

/-- A message in front changes what is saved, unless it is not saved itself or stands in for what the
failed turn would leave. -/
theorem savedForm_cons_iff (o : SaveOptions) (now : String) (n : Entry) (rest : List Entry) :
    savedForm loop o now (n :: rest) = savedForm loop o now rest ↔
      storeEntry loop o now n = none ∨ StandsIn loop o now n rest := by
  unfold savedForm StandsIn stored
  cases hn : storeEntry loop o now n with
  | none => rw [filterMap_cons_none hn]; simp
  | some entry =>
    rw [filterMap_cons_some hn]
    generalize hrest : rest.filterMap (storeEntry loop o now) = entries
    simp only [reduceCtorEq, false_or, some.injEq, exists_eq_left']
    constructor
    · intro heq
      have hlen := congrArg List.length heq
      rw [length_markLast, length_markLast] at hlen
      have hfirst := length_withError o now (entry :: entries)
      rcases length_withError o now entries with hsecond | ⟨hsecond, hnone, error, herror, hform⟩
      · simp only [length_cons] at hfirst
        omega
      · have hassistant : isAssistantEntry entry = true := by
          cases ha : isAssistantEntry entry with
          | true => rfl
          | false =>
            have hcons : lastAssistant (entry :: entries) = none :=
              lastAssistant_eq_none.mpr
                (forall_mem_cons.mpr ⟨ha, lastAssistant_eq_none.mp hnone⟩)
            rw [withError, herror, hcons] at hlen
            simp only [length_append, length_cons, length_nil] at hlen hsecond
            omega
        rw [withError_of_assistant o now entries hassistant, hform] at heq
        have hlast : lastAssistant (entry :: entries) = some 0 := by
          rw [lastAssistant, hnone]
          exact if_pos hassistant
        unfold markLast at heq
        rw [hlast, lastAssistant_append_of_none hnone
          (isAssistantEntry_errorEntry o now error)] at heq
        cases entries with
        | nil => exact ⟨rfl, hassistant, error, herror, by simpa using heq⟩
        | cons e es =>
          have he : isAssistantEntry e = false := lastAssistant_eq_none.mp hnone e mem_cons_self
          rw [← (List.cons.inj heq).1] at he
          rw [show isAssistantEntry (markAnswer o entry) = isAssistantEntry entry from rfl, hassistant] at he
          cases he
    · rintro ⟨rfl, hassistant, error, herror, hsame⟩
      simp only [withError, herror, lastAssistant, markLast, hassistant, if_true, nil_append,
        isAssistantEntry_errorEntry, modify_zero_cons, hsame]

/-! ### A request message without text -/

theorem trimEndChars_eq_nil {cs : List Char} : trimEndChars cs = [] ↔ ∀ c ∈ cs, isJsSpace c = true := by
  simp [trimEndChars, dropWhile_eq_nil_iff]

theorem isJsSpace_of_trim {text : String} (h : trim text = "") : ∀ c ∈ text.toList, isJsSpace c = true := by
  have hrest := trimEndChars_eq_nil.mp (String.ofList_eq_empty_iff.mp h)
  have hnil : text.toList.dropWhile isJsSpace = [] := by
    cases hd : text.toList.dropWhile isJsSpace with
    | nil => rfl
    | cons c cs =>
      have hhead := head?_dropWhile_not isJsSpace text.toList
      rw [hd] at hhead hrest
      simp [hrest c mem_cons_self] at hhead
  exact dropWhile_eq_nil_iff.mp hnil

theorem beforeTag_append (tag rest : List Char) : ∀ front : List Char,
    ∃ found, beforeTag tag (front ++ (tag ++ rest)) = some found ∧ found <+: front
  | [] => by
    refine ⟨[], ?_, nil_prefix⟩
    cases tag with
    | nil => cases rest <;> rfl
    | cons t tag =>
      exact if_pos (by simp)
  | c :: cs => by
    obtain ⟨found, hfound, hfront⟩ := beforeTag_append tag rest cs
    rw [cons_append, beforeTag]
    split_ifs
    · exact ⟨[], rfl, nil_prefix⟩
    · exact ⟨c :: found, by rw [hfound]; rfl, (prefix_cons_inj c).mpr hfront⟩

/-- It does not begin with a character that is not its first. -/
theorem beforeTag_skip {t : Char} {tag : List Char} (rest : List Char) : ∀ {front : List Char},
    t ∉ front → beforeTag (t :: tag) (front ++ rest) = (beforeTag (t :: tag) rest).map (front ++ ·)
  | [], _ => by cases h : beforeTag (t :: tag) rest <;> simp [h]
  | c :: cs, h => by
    obtain ⟨hc, hcs⟩ := not_or.mp (mt mem_cons.mpr h)
    rw [cons_append, beforeTag, if_neg (by simp [hc]), beforeTag_skip rest hcs, Option.map_map]
    rfl

theorem tag_eq : RUNTIME_CONTEXT_TAG.toList = '[' :: RUNTIME_CONTEXT_TAG.toList.tail := by
  decide +kernel

theorem stripRuntimeContext_of_blank {text : String} (lines : List String) (h : trim text = "") :
    stripRuntimeContext (text ++ "\n\n" ++ buildRuntimeContext lines) = "" := by
  unfold stripRuntimeContext buildRuntimeContext
  simp only [String.toList_append, append_assoc]
  rw [← append_assoc text.toList]
  obtain ⟨found, hfound, hfront⟩ := beforeTag_append RUNTIME_CONTEXT_TAG.toList
    ("\n".toList ++ (("\n".intercalate lines).toList ++ ("\n".toList ++ RUNTIME_CONTEXT_END.toList)))
    (text.toList ++ "\n\n".toList)
  rw [hfound]
  rw [String.ofList_eq_empty_iff, trimEndChars_eq_nil]
  intro c hc
  rcases mem_append.mp (hfront.subset hc) with hc | hc
  · exact isJsSpace_of_trim h c hc
  · exact (show ∀ c ∈ "\n\n".toList, isJsSpace c = true by simp [isJsSpace]) c hc

theorem stripRuntimeContext_ne_empty {front rest : List Char} {text : String}
    (htext : text.toList = front ++ rest) (hbracket : '[' ∉ front)
    (hletter : ∃ c ∈ front, isJsSpace c = false) : stripRuntimeContext text ≠ "" := by
  obtain ⟨c, hc, hspace⟩ := hletter
  unfold stripRuntimeContext
  rw [htext, tag_eq, beforeTag_skip rest hbracket]
  cases beforeTag ('[' :: RUNTIME_CONTEXT_TAG.toList.tail) rest with
  | none =>
    rintro rfl
    rw [(append_eq_nil_iff.mp htext.symm).1] at hc
    cases hc
  | some found =>
    dsimp only [map_some]
    rw [Ne, String.ofList_eq_empty_iff, trimEndChars_eq_nil]
    intro hall
    rw [hall c (mem_append_left _ hc)] at hspace
    cases hspace

theorem imageGenerationPrompt_toList (text : String) {config : ImageGeneration}
    (h : config.enabled = true) :
    ∃ more, (imageGenerationPrompt text config).toList = text.toList ++ "\n\nUse".toList ++ more := by
  unfold imageGenerationPrompt
  rw [if_neg (by simp [h])]
  cases config.aspectRatio.filter (· ≠ "") with
  | none =>
    refine ⟨" the generate_image tool. Choose the most suitable aspect_ratio yourself.".toList, ?_⟩
    simp only [String.toList_append, append_assoc]
    congr 1
  | some aspect =>
    refine ⟨" the generate_image tool with aspect_ratio='".toList ++ (aspect.toList ++ "'.".toList), ?_⟩
    simp only [String.toList_append, append_assoc]
    congr 1

theorem buildUserContent_of_unreadable (text : String) (h : ∀ file ∈ media, loop.readMedia file = none) :
    buildUserContent loop text media = .text text := by
  unfold buildUserContent
  rw [if_pos]
  constructor
  · exact filterMap_eq_nil_iff.mpr fun file hfile => by rw [imageBlock, h file hfile]
  · exact filterMap_eq_nil_iff.mpr fun file hfile => by rw [fileLine, h file hfile]

theorem sanitize_ne_nil (text : String) {file : String}
    (hfile : file ∈ media) (hread : loop.readMedia file ≠ none) :
    ∃ bs, buildUserContent loop text media = .blocks bs ∧
      ∀ more, sanitizePersistedBlocks none true (bs ++ more) ≠ [] := by
  have hdropped : ∀ {bs more : List Block} {block : Block}, block ∈ bs →
      (block.type = "image_url" ∨
        ∃ t, block.text = some t ∧ t.toList.head? = some '<') →
      sanitizePersistedBlocks none true (bs ++ more) ≠ [] := by
    intro bs more block hmem hkind hnil
    have hnone := filterMap_eq_nil_iff.mp hnil block (mem_append_left _ hmem)
    rcases hkind with htype | ⟨t, htext, hhead⟩
    · rw [if_neg (by simp [htype])] at hnone
      split_ifs at hnone
    · obtain ⟨cs, hcs⟩ := head?_eq_some_iff.mp hhead
      rw [if_neg (by rw [htext, tag_eq, map_some, hcs]; simp)] at hnone
      split_ifs at hnone
  unfold buildUserContent
  cases hr : loop.readMedia file with
  | none => exact absurd hr hread
  | some attachment =>
    cases attachment with
    | image url =>
      have himage := mem_filterMap.mpr ⟨file, hfile, show imageBlock loop file = some
        { type := "image_url", imageUrl := some url, path := some file } by rw [imageBlock, hr]⟩
      rw [if_neg fun hnil => by rw [hnil.1] at himage; cases himage]
      exact ⟨_, rfl, fun more => hdropped (mem_append_left _ himage) (Or.inl rfl)⟩
    | file line =>
      have hline := mem_filterMap.mpr
        ⟨file, hfile, show fileLine loop file = some line by rw [fileLine, hr]⟩
      have hlines : media.filterMap (fileLine loop) ≠ [] := ne_nil_of_mem hline
      rw [if_neg fun hnil => hlines hnil.2, if_neg hlines]
      refine ⟨_, rfl, fun more => hdropped (mem_append_right _ (mem_singleton_self _)) (Or.inr ⟨_, rfl, ?_⟩)⟩
      rw [String.append_assoc, String.append_assoc, String.toList_append,
        show "<attachments>\n".toList = '<' :: "attachments>\n".toList by decide +kernel]
      rfl

/-- **A request message without text leaves nothing**, unless it asks for an image or carries a file. -/
theorem storeEntry_requestMessage (o : SaveOptions) (now : String) (h : hasText turn.msg = false) :
    storeEntry loop o now (requestMessage loop turn) = none ↔
      turn.msg.imageGeneration.enabled = false ∧ ∀ file ∈ turn.msg.media, loop.readMedia file = none := by
  have hblank : trim turn.msg.content = "" := by simpa [hasText] using h
  have hstore : storeEntry loop o now (requestMessage loop turn) = none ↔
      storedContent loop (requestMessage loop turn) = none := by
    unfold storeEntry
    rw [if_neg fun hrole => absurd hrole.1 (show ¬"user" = "assistant" by decide), map_eq_none_iff]
  have hrole : (requestMessage loop turn).role = "user" := rfl
  rw [hstore]
  unfold storedContent
  rw [hrole, if_neg (by decide), if_pos rfl]
  by_cases hread : ∀ file ∈ turn.msg.media, loop.readMedia file = none
  · simp only [requestMessage, buildUserContent_of_unreadable loop _ hread]
    by_cases himage : turn.msg.imageGeneration.enabled = true
    · obtain ⟨more, hmore⟩ := imageGenerationPrompt_toList turn.msg.content himage
      rw [if_neg]
      · simp [himage]
      · refine @stripRuntimeContext_ne_empty (turn.msg.content.toList ++ "\n\nUse".toList) _ _
          (by rw [String.toList_append, String.toList_append, hmore, append_assoc,
            append_assoc]) ?_ ⟨'U', mem_append_right _ (by decide +kernel), by decide⟩
        rw [mem_append]
        rintro (hc | hc)
        · exact absurd (isJsSpace_of_trim hblank _ hc) (by decide)
        · exact absurd hc (by decide +kernel)
    · rw [if_pos]
      · simpa [himage] using hread
      · rw [imageGenerationPrompt, if_pos (by simpa using himage)]
        exact stripRuntimeContext_of_blank turn.runtimeLines hblank
  · push Not at hread
    obtain ⟨file, hfile, hne⟩ := hread
    obtain ⟨bs, hbs, hkept⟩ := sanitize_ne_nil loop
      (imageGenerationPrompt turn.msg.content turn.msg.imageGeneration) hfile hne
    simp only [requestMessage, hbs, toBlocks]
    rw [if_neg (hkept _)]
    simp only [reduceCtorEq, false_iff, not_and]
    exact fun _ hall => hne (hall file hfile)

/-! ### The turn -/

/-- **The turn is saved exactly**: behind what the session held stand the user message, once, and
what the run appended. -/
def SavedExactly : Prop :=
  (savedSession loop turn (ranTurn loop turn s)).messages =
    s.messages ++ (currentEntry turn).toList ++
      savedForm loop turn.options turn.now turn.appended

/-- The user message is written early and merged into another one only if the message that this
costs would not be saved; a turn without text asks for no image and carries no file. -/
def CutFits : Prop :=
  (userPersistedEarly turn = true → Merged loop turn s → ∀ n rest, turn.appended = n :: rest →
    storeEntry loop turn.options turn.now n = none ∨
      StandsIn loop turn.options turn.now n rest) ∧
  (userPersistedEarly turn = false → ¬Merged loop turn s →
    turn.msg.imageGeneration.enabled = false ∧ ∀ file ∈ turn.msg.media, loop.readMedia file = none)

theorem savedSession_messages :
    (savedSession loop turn (ranTurn loop turn s)).messages =
      s.messages ++ (currentEntry turn).toList ++
        savedForm loop turn.options turn.now
          ((ranTurn loop turn s).allMessages.drop (saveSkip (ranTurn loop turn s))) := by
  rw [← builtSession_messages]
  exact saveTurn_messages loop _ turn.options turn.now _ _

theorem runTurn_messages
    (h : (savedSession loop turn (ranTurn loop turn s)).messages.length ≤ FILE_MAX_MESSAGES) :
    (runTurn loop turn s).messages = (savedSession loop turn (ranTurn loop turn s)).messages := by
  unfold runTurn stateSave enforceFileCap
  rw [if_pos (Or.inr h)]

/-- **A turn is saved exactly if the cut fits.** -/
theorem savedExactly_iff : SavedExactly loop turn s ↔ CutFits loop turn s := by
  unfold SavedExactly CutFits
  rw [savedSession_messages, savedPart, append_cancel_left_eq]
  by_cases hearly : userPersistedEarly turn = true
  · by_cases hmerged : Merged loop turn s
    · simp only [hearly, hmerged, if_true]
      cases happended : turn.appended with
      | nil => simp
      | cons n rest =>
        rw [drop_one, tail_cons, eq_comm, savedForm_cons_iff]
        simp
    · simp [hearly, hmerged]
  · by_cases hmerged : Merged loop turn s
    · simp [hearly, hmerged]
    · rw [if_neg hmerged, if_neg hearly, savedForm_cons_iff]
      have huser : ¬StandsIn loop turn.options turn.now (requestMessage loop turn) turn.appended := by
        rintro ⟨-, entry, hentry, hassistant, -⟩
        rw [isAssistantEntry, storeEntry_role loop hentry] at hassistant
        exact absurd hassistant (show ¬decide ("user" = "assistant") = true by decide)
      have h := (hasText_of_not_early turn (by simpa using hearly)).2
      simp [hearly, hmerged, huser, storeEntry_requestMessage loop turn turn.options turn.now h]

/-- **The session after a turn**: what it held, the user message once, and what the run appended,
exactly if the cut fits. Beyond the file cap this is the session that the cap shortens. -/
theorem turn_saved_iff :
    (SavedExactly loop turn s ↔ CutFits loop turn s) ∧
      ((savedSession loop turn (ranTurn loop turn s)).messages.length ≤ FILE_MAX_MESSAGES →
        ((runTurn loop turn s).messages =
            s.messages ++ (currentEntry turn).toList ++
              savedForm loop turn.options turn.now turn.appended ↔
          CutFits loop turn s)) := by
  refine ⟨savedExactly_iff loop turn s, fun h => ?_⟩
  rw [runTurn_messages loop turn s h]
  exact savedExactly_iff loop turn s

/-! ### A lost answer -/

def plainLoop : AgentLoop where
  texts :=
    { sanitizeAssistantReplayText := trim
      estimateMessageTokens := fun _ => 10 }
  systemPrompt := "You are an agent."
  maxMessages := 120
  replayTokenBudget := none
  maxToolResultChars := 16000
  readMedia := fun _ => none

def plainTurn (text answer : String) : Turn where
  msg := { content := text }
  admission := .plain
  now := "2025-01-01T00:00:00.000Z"
  consolidate := fun s => s.lastConsolidated
  appended := [{ role := "assistant", content := .text answer }]
  consolidateMidTurn := fun s => s.lastConsolidated
  options := { turnLatencyMs := some 5 }

def newSession : Session Entry ℕ where
  key := "websocket:chat"
  messages := []
  lastConsolidated := 0
  createdAt := "2025-01-01T00:00:00.000Z"
  updatedAt := "2025-01-01T00:00:00.000Z"

/-- The session after a turn that ended without an answer. -/
def unanswered : Session Entry ℕ := runTurn plainLoop (plainTurn "first" "") newSession

/-- The next turn merges its message into the one without an answer, and its own answer is lost. -/
theorem answer_lost :
    unanswered.messages.map (·.content) = [.text "first"] ∧
      (runTurn plainLoop (plainTurn "second" "answer") unanswered).messages.map (·.content) =
        [.text "first", .text "second"] ∧
      ¬SavedExactly plainLoop (plainTurn "second" "answer") unanswered := by
  refine ⟨by decide +kernel, by decide +kernel, fun h => ?_⟩
  have hlen := congrArg List.length h
  revert hlen
  decide +kernel

end Memmy.Conversation.ExactSave
