/-
  File:      RocketMQ/Naming.lean
  Subject:   Topic names: retry and dead-letter wrapping, namespaces, POP retry names.

  The names are those of `mix_all.rs`, `namespace_util.rs` and the naming half of
  `extra_info.rs`; the two rewritings a batch goes through before the listener sees it
  (`resetPopRetryTopic`, `resetRetryTopicAndNamespace`) stand after them. Both touch nothing but
  the topic (`resetPopRetryTopic_offsets`, `resetRetryTopicAndNamespace_offsets`).

  * `withoutNamespace_eq_self_iff`: which names the namespace rewriting leaves alone;
  * `PopKind`: the three topics a pop brings rows from; `ofTopic_physical`: when the retry flag
    that is read off the name is the right one;
  * `wrapNamespace_inverse_iff`: wrapping and stripping a namespace are inverse, unless it holds
    the separator;
  * `popRetryTopic_roundTrip`, `parsePopNormalTopic_other_iff`: a retry name is read back for its
    own group, and left alone for another unless it reads as one of that group too;
  * `delivered_topic_eq_iff`: when the listener sees a row under the name it was popped with.
-/
import RocketMQ.Lib.Text
import RocketMQ.Message

namespace RocketMQ

open Text

/-! ## 1. Prefixes (`MixAll`) -/

def retryGroupTopicPrefix : String := "%RETRY%"

def dlqGroupTopicPrefix : String := "%DLQ%"

def systemTopicPrefix : String := "rmq_sys_"

def cidRmqSysPrefix : String := "CID_RMQ_SYS_"

/-- `MixAll::get_retry_topic`. -/
def getRetryTopic (consumerGroup : String) : String := retryGroupTopicPrefix ++ consumerGroup

variable (topic : String)

/-- `MixAll::is_retry_topic`. -/
def isRetryTopic : Bool := startsWith topic retryGroupTopicPrefix

/-- `MixAll::is_dlq_topic`. -/
def isDlqTopic : Bool := startsWith topic dlqGroupTopicPrefix

/-- `MixAll::reset_retry_and_dlq_topic`: the name without its outer wrapping. -/
def resetRetryAndDlqTopic : String :=
  match stripPrefix topic retryGroupTopicPrefix with
  | some rest => rest
  | none => (stripPrefix topic dlqGroupTopicPrefix).getD topic

/-! ## 2. Namespaces (`NamespaceUtil`) -/

namespace NamespaceUtil

def withOutRetryAndDlq (resource : String) : String :=
  if resource.isEmpty then "" else resetRetryAndDlqTopic resource

/-- `is_system_resource`: system topics and system groups are never namespaced. -/
def isSystemResource (resource : String) : Bool :=
  !resource.isEmpty &&
    (startsWith resource systemTopicPrefix || startsWith resource cidRmqSysPrefix)

/-- The wrapping that is put back in front: a dead-letter name keeps only `%DLQ%`. -/
def outerPrefix (resource : String) : String :=
  if isDlqTopic resource then dlqGroupTopicPrefix
  else if isRetryTopic resource then retryGroupTopicPrefix
  else ""

/-- The stripping half of `without_namespace`: cut the plain name after its first `%`. -/
def cutNamespace (resource : String) : String :=
  match cutAt '%' (withOutRetryAndDlq resource) with
  | some (ns, rest) => if ns.isEmpty then resource else outerPrefix resource ++ rest
  | none => resource

def withoutNamespace (resource nameSpace : String) : String :=
  if resource.isEmpty then resource
  else if nameSpace.isEmpty then
    if isSystemResource resource then resource else cutNamespace resource
  else if startsWith (withOutRetryAndDlq resource) (nameSpace ++ "%") then cutNamespace resource
  else resource

def isAlreadyWithNamespace (resource nameSpace : String) : Bool :=
  if nameSpace.isEmpty || resource.isEmpty || isSystemResource resource then false
  else startsWith (withOutRetryAndDlq resource) (nameSpace ++ "%")

/-- `wrap_namespace`: what every subscription of a client with a namespace goes through. -/
def wrapNamespace (nameSpace resource : String) : String :=
  if nameSpace.isEmpty || resource.isEmpty then resource
  else if isSystemResource resource || isAlreadyWithNamespace resource nameSpace then resource
  else outerPrefix resource ++ nameSpace ++ "%" ++ withOutRetryAndDlq resource

end NamespaceUtil

/-! ## 3. POP retry names (`extra_info`) -/

variable (topic cid : String)

def buildPopRetryTopicV1 : String :=
  retryGroupTopicPrefix ++ cid ++ "_" ++ topic

def buildPopRetryTopicV2 : String :=
  retryGroupTopicPrefix ++ cid ++ "+" ++ topic

/-- `is_pop_retry_topic_v2` of a present name. -/
def isPopRetryTopicV2 : Bool :=
  !topic.isEmpty && startsWith topic retryGroupTopicPrefix && containsChar topic '+'

/-- The tail after `head ++ separator`, when it is not empty. -/
def popTail (topic head separator : String) : Option String :=
  (stripPrefix topic (head ++ separator)).filter (fun rest => !rest.isEmpty)

/-- `parse_pop_normal_topic`: `+` is tried before `_`. -/
def parsePopNormalTopic : String :=
  if topic.isEmpty || cid.isEmpty || !startsWith topic retryGroupTopicPrefix then topic
  else
    match popTail topic (retryGroupTopicPrefix ++ cid) "+" with
    | some rest => rest
    | none => (popTail topic (retryGroupTopicPrefix ++ cid) "_").getD topic

/-- `retry_of_topic`: the retry flag of a physical topic. -/
def retryOfTopic : String :=
  if isPopRetryTopicV2 topic then "2"
  else if startsWith topic retryGroupTopicPrefix then "1"
  else "0"

/-- `get_real_topic`: an unknown flag is an error. -/
def getRealTopic (topic cid retry : String) : Except String String :=
  if retry = "0" then .ok topic
  else if retry = "1" then .ok (buildPopRetryTopicV1 topic cid)
  else if retry = "2" then .ok (buildPopRetryTopicV2 topic cid)
  else .error "getRetry fail, format is wrong"

/-! ## 4. The topic a listener sees -/

/-- The names under which a consumer knows itself. -/
structure GroupNames where
  consumerGroup : String
  nameSpace : String
  deriving DecidableEq, Repr

variable (g : GroupNames)

/-- The group spellings `reset_pop_retry_topic` recognises. -/
def popRetryGroups : List String :=
  let plain := NamespaceUtil.withoutNamespace g.consumerGroup g.nameSpace
  if g.nameSpace.isEmpty || plain == g.consumerGroup then [g.consumerGroup]
  else [g.consumerGroup, plain]

/-- The first group whose retry naming the topic carries decides. -/
def popNormalTopicOf (topic : String) : List String → String
  | [] => topic
  | g :: gs =>
    let normal := parsePopNormalTopic topic g
    if normal = topic then popNormalTopicOf topic gs else normal

/-- `reset_pop_retry_topic` on one row. -/
def resetPopRetryTopicMsg (m : MessageExt) : MessageExt :=
  { m with topic := popNormalTopicOf m.topic (popRetryGroups g) }

def resetPopRetryTopic (msgs : List MessageExt) : List MessageExt :=
  msgs.map (resetPopRetryTopicMsg g)

/-- The topic after the `RETRY_TOPIC` property is honoured. -/
def restoredTopic (m : MessageExt) : String :=
  match m.getProperty "RETRY_TOPIC" with
  | some retryTopic => if m.topic = getRetryTopic g.consumerGroup then retryTopic else m.topic
  | none => m.topic

/-- `reset_retry_topic_and_namespace` on one row. -/
def resetRetryTopicAndNamespaceMsg (m : MessageExt) : MessageExt :=
  let topic := restoredTopic g m
  { m with topic :=
      if g.nameSpace.isEmpty then topic else NamespaceUtil.withoutNamespace topic g.nameSpace }

def resetRetryTopicAndNamespace (msgs : List MessageExt) : List MessageExt :=
  msgs.map (resetRetryTopicAndNamespaceMsg g)

@[simp] theorem resetPopRetryTopic_offsets (msgs : List MessageExt) :
    offsets (resetPopRetryTopic g msgs) = offsets msgs := by
  have h : ∀ m, (resetPopRetryTopicMsg g m).queueOffset = m.queueOffset := fun _ => rfl
  exact offsets_map h msgs

@[simp] theorem resetRetryTopicAndNamespace_offsets (msgs : List MessageExt) :
    offsets (resetRetryTopicAndNamespace g msgs) = offsets msgs := by
  have h : ∀ m, (resetRetryTopicAndNamespaceMsg g m).queueOffset = m.queueOffset := fun _ => rfl
  exact offsets_map h msgs

/-! ## 5. What the namespace rewriting leaves alone -/

namespace NamespaceUtil

theorem dlq_not_retry (rest : String) :
    stripPrefix (dlqGroupTopicPrefix ++ rest) retryGroupTopicPrefix = none := by
  apply stripPrefix_eq_none
  simp [startsWith, dlqGroupTopicPrefix, retryGroupTopicPrefix,
    List.isPrefixOf]

theorem outerPrefix_append (resource : String) :
    outerPrefix resource ++ withOutRetryAndDlq resource = resource := by
  unfold withOutRetryAndDlq outerPrefix resetRetryAndDlqTopic isDlqTopic isRetryTopic
  by_cases he : resource.isEmpty = true
  · rw [String.isEmpty_iff.mp he]
    rfl
  · rw [if_neg he]
    by_cases hd : startsWith resource dlqGroupTopicPrefix = true
    · obtain ⟨rest, rfl⟩ := startsWith_iff.mp hd
      rw [if_pos hd, dlq_not_retry, stripPrefix_append]
      rfl
    · rw [if_neg hd, stripPrefix_eq_none (Bool.eq_false_iff.mpr hd)]
      by_cases hr : startsWith resource retryGroupTopicPrefix = true
      · obtain ⟨rest, rfl⟩ := startsWith_iff.mp hr
        rw [if_pos hr, stripPrefix_append]
      · rw [if_neg hr, stripPrefix_eq_none (Bool.eq_false_iff.mpr hr)]
        exact String.empty_append

/-- The resource carries the namespace, and in a form that `without_namespace` cuts off: a
namespace that starts with `%` leaves an empty text in front of the first `%`. -/
def carriesNamespace (resource nameSpace : String) : Bool :=
  !nameSpace.isEmpty && startsWith (withOutRetryAndDlq resource) (nameSpace ++ "%")
    && !startsWith nameSpace "%"

theorem cutNamespace_eq_self_iff {resource a b : String}
    (hcut : cutAt '%' (withOutRetryAndDlq resource) = some (a, b)) :
    cutNamespace resource = resource ↔ a.isEmpty = true := by
  unfold cutNamespace
  rw [hcut]
  show (if a.isEmpty = true then resource else outerPrefix resource ++ b) = resource ↔ _
  by_cases ha : a.isEmpty = true
  · rw [if_pos ha]
    exact ⟨fun _ => ha, fun _ => rfl⟩
  · rw [if_neg ha]
    refine ⟨fun h => ?_, fun h => absurd h ha⟩
    -- the plain name would be its own tail behind the first separator
    have hplain : b = withOutRetryAndDlq resource :=
      (String.append_right_inj _).mp (h.trans (outerPrefix_append resource).symm)
    have hsep := (cutAt_eq_some.mp hcut).1
    rw [← hplain] at hsep
    have hnil := String.append_eq_right_iff.mp hsep.symm
    simp at hnil

/-- **Which names lose their namespace.** -/
theorem withoutNamespace_eq_self_iff {resource nameSpace : String}
    (hns : nameSpace.isEmpty = false) :
    withoutNamespace resource nameSpace = resource ↔
      carriesNamespace resource nameSpace = false := by
  have hne : nameSpace ≠ "" := String.isEmpty_eq_false_iff.mp hns
  unfold withoutNamespace carriesNamespace
  rw [hns]
  by_cases he : resource.isEmpty = true
  · rw [String.isEmpty_iff.mp he]
    have hnot : startsWith (withOutRetryAndDlq "") (nameSpace ++ "%") = false := by
      simp [startsWith, withOutRetryAndDlq]
    rw [hnot]
    simp
  · rw [if_neg he, if_neg Bool.false_ne_true]
    by_cases hs : startsWith (withOutRetryAndDlq resource) (nameSpace ++ "%") = true
    · rw [if_pos hs, hs]
      obtain ⟨r, hr⟩ := startsWith_iff.mp hs
      have hcontains : containsChar (withOutRetryAndDlq resource) '%' = true := by
        rw [hr]
        simp [containsChar]
      obtain ⟨a, b, hcut⟩ := cutAt_of_contains hcontains
      rw [cutNamespace_eq_self_iff hcut, cutAt_front_empty hcut, hr, String.append_assoc,
        startsWith_singleton_append _ hne]
      simp
    · rw [Bool.eq_false_iff.mpr hs]
      simp

theorem outerPrefix_cases (resource : String) : outerPrefix resource = dlqGroupTopicPrefix ∨
    outerPrefix resource = retryGroupTopicPrefix ∨ outerPrefix resource = "" := by
  unfold outerPrefix
  split
  · exact .inl rfl
  · split
    · exact .inr (.inl rfl)
    · exact .inr (.inr rfl)

theorem withOutRetryAndDlq_outerPrefix {rest : String} (h : startsWith rest "%" = false)
    (resource : String) : withOutRetryAndDlq (outerPrefix resource ++ rest) = rest := by
  have hbare : ∀ p, stripPrefix rest ("%" ++ p) = none := by
    intro p
    rw [Option.eq_none_iff_forall_ne_some]
    intro r hr
    rw [stripPrefix_eq_some.mp hr, String.append_assoc, startsWith_append] at h
    cases h
  unfold withOutRetryAndDlq resetRetryAndDlqTopic
  rcases outerPrefix_cases resource with hp | hp | hp
  · rw [hp, dlq_not_retry, stripPrefix_append, if_neg]
    · rfl
    · simp [dlqGroupTopicPrefix]
  · rw [hp, stripPrefix_append]
    simp [retryGroupTopicPrefix]
  · rw [hp, String.empty_append]
    have hr : stripPrefix rest retryGroupTopicPrefix = none := hbare "RETRY%"
    have hd : stripPrefix rest dlqGroupTopicPrefix = none := hbare "DLQ%"
    rw [hr, hd]
    split
    · exact (String.isEmpty_iff.mp ‹_›).symm
    · rfl

/-- **Every subscribed topic carries the client's namespace**, except the system's own. -/
theorem wrapNamespace_carries {nameSpace topic : String} (hns : nameSpace.isEmpty = false)
    (hpercent : startsWith nameSpace "%" = false) (htopic : topic.isEmpty = false)
    (hsys : isSystemResource topic = false) :
    carriesNamespace (wrapNamespace nameSpace topic) nameSpace = true := by
  unfold carriesNamespace wrapNamespace
  rw [hns, hpercent, htopic, hsys]
  by_cases hal : isAlreadyWithNamespace topic nameSpace = true
  · have hs : startsWith (withOutRetryAndDlq topic) (nameSpace ++ "%") = true := by
      unfold isAlreadyWithNamespace at hal
      rwa [hns, htopic, hsys] at hal
    simp [hal, hs]
  · have hrest : startsWith (nameSpace ++ ("%" ++ withOutRetryAndDlq topic)) "%" = false := by
      rw [← hpercent]
      exact startsWith_singleton_append (c := '%') _ (String.isEmpty_eq_false_iff.mp hns)
    have hplain := withOutRetryAndDlq_outerPrefix hrest topic
    simp only [← String.append_assoc] at hplain
    simp [hal, hplain]

theorem outerPrefix_again {resource : String} (rest : String) (h : outerPrefix resource ≠ "") :
    outerPrefix (outerPrefix resource ++ rest) = outerPrefix resource := by
  rcases outerPrefix_cases resource with hp | hp | hp
  · rw [hp]
    unfold outerPrefix isDlqTopic
    rw [startsWith_append]
    rfl
  · have hd : isDlqTopic (retryGroupTopicPrefix ++ rest) = false := by
      simp [isDlqTopic, startsWith, dlqGroupTopicPrefix,
        retryGroupTopicPrefix, List.isPrefixOf]
    rw [hp]
    unfold outerPrefix isRetryTopic
    rw [hd, startsWith_append]
    rfl
  · exact absurd hp h

/-- The prefix of a wrapped name is the one of the name, when stripping gives the name back. -/
theorem outerPrefix_of_strip {w r x y : String} (hw : w = outerPrefix r ++ x)
    (hr : outerPrefix w ++ y = r) : outerPrefix w = outerPrefix r := by
  by_cases h : outerPrefix w = ""
  · by_cases h' : outerPrefix r = ""
    · rw [h, h']
    · rw [hw, outerPrefix_again x h']
  · rw [← hr, outerPrefix_again y h]

/-! The names that `wrap_namespace` changes. -/

section Wrapped

variable {nameSpace resource : String} (hns : nameSpace.isEmpty = false)
  (hne : resource.isEmpty = false) (hsys : isSystemResource resource = false)
  (hal : isAlreadyWithNamespace resource nameSpace = false)

include hns hne hsys hal

theorem wrapNamespace_eq : wrapNamespace nameSpace resource =
    outerPrefix resource ++ (nameSpace ++ "%" ++ withOutRetryAndDlq resource) := by
  unfold wrapNamespace
  rw [hns, hne, hsys, hal]
  simp [String.append_assoc]

theorem wrapNamespace_ne_self : wrapNamespace nameSpace resource ≠ resource := by
  rw [wrapNamespace_eq hns hne hsys hal]
  intro h
  have hsame := (String.append_right_inj _).mp (h.trans (outerPrefix_append resource).symm)
  have hnil := String.append_eq_right_iff.mp hsame
  simp at hnil

theorem wrapNamespace_isEmpty : (wrapNamespace nameSpace resource).isEmpty = false := by
  rw [wrapNamespace_eq hns hne hsys hal]
  simp

theorem wrapNamespace_plain (hsep : containsChar nameSpace '%' = false) :
    withOutRetryAndDlq (wrapNamespace nameSpace resource) =
      nameSpace ++ "%" ++ withOutRetryAndDlq resource := by
  rw [wrapNamespace_eq hns hne hsys hal]
  apply withOutRetryAndDlq_outerPrefix
  rw [← Bool.not_eq_true, String.append_assoc]
  intro h
  have hs : startsWith nameSpace "%" = true := by
    rw [← h]
    exact (startsWith_singleton_append (c := '%') _ (String.isEmpty_eq_false_iff.mp hns)).symm
  obtain ⟨r, rfl⟩ := startsWith_iff.mp hs
  simp [containsChar] at hsep

theorem wrapNamespace_wrapped (hsep : containsChar nameSpace '%' = false) :
    wrapNamespace nameSpace (wrapNamespace nameSpace resource) =
      wrapNamespace nameSpace resource := by
  have hfull := wrapNamespace_isEmpty hns hne hsys hal
  have hal' : (isSystemResource (wrapNamespace nameSpace resource) ||
      isAlreadyWithNamespace (wrapNamespace nameSpace resource) nameSpace) = true := by
    unfold isAlreadyWithNamespace
    rw [hns, hfull, wrapNamespace_plain hns hne hsys hal hsep, startsWith_append]
    cases isSystemResource (wrapNamespace nameSpace resource) <;> rfl
  rw [wrapNamespace, hns, hfull, if_neg (by decide), if_pos hal']

/-- **Stripping undoes wrapping** for the namespaces without the separator, and for no others. -/
theorem withoutNamespace_wrapped_iff :
    withoutNamespace (wrapNamespace nameSpace resource) nameSpace = resource ↔
      containsChar nameSpace '%' = false := by
  have hwrap := wrapNamespace_eq hns hne hsys hal
  unfold withoutNamespace cutNamespace
  rw [wrapNamespace_isEmpty hns hne hsys hal, hns, if_neg Bool.false_ne_true,
    if_neg Bool.false_ne_true]
  constructor
  · intro hstrip
    have hlonger := wrapNamespace_ne_self hns hne hsys hal
    split at hstrip
    · split at hstrip
      next a b hcut =>
        split at hstrip
        · exact absurd hstrip hlonger
        · obtain ⟨hplain, ha⟩ := cutAt_eq_some.mp hcut
          -- both cuts leave the same prefix and the same rest, so what they cut off is the same
          have hpre := outerPrefix_of_strip hwrap hstrip
          have hb : b = withOutRetryAndDlq resource := by
            rw [← String.append_right_inj (outerPrefix resource), outerPrefix_append, ← hpre, hstrip]
          have hsame := outerPrefix_append (wrapNamespace nameSpace resource)
          rw [hplain, hpre, hb, hwrap] at hsame
          rw [String.append_right_inj, String.append_left_inj] at hsame
          rw [← (String.append_left_inj "%").mp hsame]
          exact ha
      next => exact absurd hstrip hlonger
    · exact absurd hstrip hlonger
  · intro hsep
    have hplain := wrapNamespace_plain hns hne hsys hal hsep
    have hcut : cutAt '%' (nameSpace ++ "%" ++ withOutRetryAndDlq resource) =
        some (nameSpace, withOutRetryAndDlq resource) := cutAt_append _ hsep
    have hpre : outerPrefix (wrapNamespace nameSpace resource) = outerPrefix resource := by
      have hsame := outerPrefix_append (wrapNamespace nameSpace resource)
      rw [hplain, hwrap] at hsame
      rw [hwrap]
      exact (String.append_left_inj _).mp hsame
    rw [hplain, if_pos (startsWith_append _ _), hcut]
    dsimp only
    rw [hns, if_neg Bool.false_ne_true, hpre, outerPrefix_append]

/-- **Wrapping and stripping are inverse, and wrapping twice is wrapping once**, exactly for the
namespaces without the separator. -/
theorem wrapNamespace_inverse_iff :
    (wrapNamespace nameSpace (wrapNamespace nameSpace resource) =
          wrapNamespace nameSpace resource ∧
        withoutNamespace (wrapNamespace nameSpace resource) nameSpace = resource) ↔
      containsChar nameSpace '%' = false := by
  have hstrip := withoutNamespace_wrapped_iff hns hne hsys hal
  exact ⟨fun h => hstrip.mp h.2,
    fun h => ⟨wrapNamespace_wrapped hns hne hsys hal h, hstrip.mpr h⟩⟩

end Wrapped

theorem wrapNamespace_inverse_retry :
    wrapNamespace "NS" "%RETRY%G" = "%RETRY%NS%G" ∧
      withoutNamespace (wrapNamespace "NS" "%RETRY%G") "NS" = "%RETRY%G" :=
  ⟨by decide, ((wrapNamespace_inverse_iff (by decide) (by decide) (by decide) (by decide)).mpr
    (by decide)).2⟩

theorem wrapNamespace_separator_inside : isAlreadyWithNamespace "T" "a%b" = false ∧
    wrapNamespace "a%b" "T" = "a%b%T" ∧ withoutNamespace "a%b%T" "a%b" = "b%T" := by
  decide

end NamespaceUtil

/-! ## 6. The topics a pop brings rows from -/

theorem retry_isEmpty (rest : String) : (retryGroupTopicPrefix ++ rest).isEmpty = false := by
  simp [retryGroupTopicPrefix]

theorem buildPopRetryTopicV1_eq :
    buildPopRetryTopicV1 topic cid = retryGroupTopicPrefix ++ (cid ++ "_" ++ topic) := by
  simp only [buildPopRetryTopicV1, String.append_assoc]

theorem buildPopRetryTopicV2_eq :
    buildPopRetryTopicV2 topic cid = retryGroupTopicPrefix ++ (cid ++ "+" ++ topic) := by
  simp only [buildPopRetryTopicV2, String.append_assoc]

/-- A pop of a topic brings rows of the topic itself and of its two retry topics. -/
inductive PopKind where
  | normal
  | retryV1
  | retryV2
  deriving DecidableEq, Repr

namespace PopKind

/-- The retry flag of the kind. -/
def flag : PopKind → String
  | normal => "0"
  | retryV1 => "1"
  | retryV2 => "2"

/-- The topic such a row is stored under. -/
def physical (cid topic : String) : PopKind → String
  | normal => topic
  | retryV1 => buildPopRetryTopicV1 topic cid
  | retryV2 => buildPopRetryTopicV2 topic cid

/-- The kind `retry_of_topic` reads off a name. -/
def ofTopic : PopKind :=
  if isPopRetryTopicV2 topic then retryV2
  else if startsWith topic retryGroupTopicPrefix then retryV1
  else normal

theorem retryOfTopic_eq : retryOfTopic topic = (ofTopic topic).flag := by
  unfold retryOfTopic ofTopic
  split
  · rfl
  · split
    · rfl
    · rfl

theorem getRealTopic_flag (k : PopKind) :
    getRealTopic topic cid k.flag = .ok (k.physical cid topic) := by
  cases k with
  | normal | retryV1 | retryV2 => rfl

/-- What stands in front of the topic. -/
def wrapping (cid : String) : PopKind → String
  | normal => ""
  | retryV1 => retryGroupTopicPrefix ++ cid ++ "_"
  | retryV2 => retryGroupTopicPrefix ++ cid ++ "+"

theorem physical_eq (cid topic : String) (k : PopKind) :
    k.physical cid topic = k.wrapping cid ++ topic := by
  cases k with
  | normal => exact String.empty_append.symm
  | retryV1 | retryV2 => rfl

variable {k k' : PopKind} {cid topic : String}

theorem wrapping_inj (h : k.wrapping cid = k'.wrapping cid) : k = k' := by
  have hlist := congrArg String.toList h
  cases k <;> cases k' <;> first
    | rfl
    | simp [wrapping] at hlist

theorem physical_inj {a b : String} : k.physical cid a = k.physical cid b ↔ a = b := by
  rw [physical_eq, physical_eq, String.append_right_inj]

theorem physical_kind_inj : k.physical cid topic = k'.physical cid topic ↔ k = k' := by
  rw [physical_eq, physical_eq, String.append_left_inj]
  exact ⟨wrapping_inj, fun h => by rw [h]⟩

theorem ofTopic_plain (h : isRetryTopic topic = false) : ofTopic topic = normal := by
  have hs : startsWith topic retryGroupTopicPrefix = false := h
  unfold ofTopic isPopRetryTopicV2
  simp [hs]

theorem ofTopic_wrapped (rest : String) :
    ofTopic (retryGroupTopicPrefix ++ rest) =
      if containsChar rest '+' = true then retryV2 else retryV1 := by
  have hplus : containsChar (retryGroupTopicPrefix ++ rest) '+' = containsChar rest '+' := by
    rw [containsChar_append]
    rfl
  unfold ofTopic isPopRetryTopicV2
  rw [retry_isEmpty, hplus]
  simp

/-- The names whose kind is read off rightly. -/
def Recognised (cid topic : String) : PopKind → Prop
  | normal => isRetryTopic topic = false
  | retryV1 => containsChar (cid ++ topic) '+' = false
  | retryV2 => True

/-- **`retry_of_topic` on the three topics of a name.** -/
theorem ofTopic_physical (cid topic : String) (k : PopKind) :
    ofTopic (k.physical cid topic) = k ↔ k.Recognised cid topic := by
  cases k with
  | normal =>
    refine ⟨fun h => ?_, ofTopic_plain⟩
    show isRetryTopic topic = false
    rw [← Bool.not_eq_true]
    intro hr
    obtain ⟨rest, rfl⟩ := startsWith_iff.mp hr
    have h' : ofTopic (retryGroupTopicPrefix ++ rest) = normal := h
    rw [ofTopic_wrapped] at h'
    split at h'
    · cases h'
    · cases h'
  | retryV1 =>
    have hplus : containsChar (cid ++ "_" ++ topic) '+' = containsChar (cid ++ topic) '+' := by
      rw [containsChar_append, containsChar_append, containsChar_append]
      show ((containsChar cid '+' || false) || containsChar topic '+') = _
      rw [Bool.or_false]
    rw [physical, buildPopRetryTopicV1_eq, ofTopic_wrapped, hplus]
    unfold Recognised
    split
    · simp [*]
    · simp [*]
  | retryV2 =>
    have hplus : containsChar (cid ++ "+" ++ topic) '+' = true := by
      simp [containsChar]
    rw [physical, buildPopRetryTopicV2_eq, ofTopic_wrapped, if_pos hplus]
    unfold Recognised
    simp

end PopKind

/-! ## 7. Reading a retry name back -/

/-- The name continues the group behind a `_`, with a tail that can be taken for a topic. -/
def readsAsGroup (cid name : String) : Bool :=
  !cid.isEmpty && (popTail name cid "_").isSome

variable {topic rest cid : String} {g : GroupNames} {m : MessageExt}

theorem popTail_eq_some {head separator : String} :
    popTail topic head separator = some rest ↔ topic = head ++ separator ++ rest ∧ rest ≠ "" := by
  unfold popTail
  rw [Option.filter_eq_some_iff, stripPrefix_eq_some, Bool.not_eq_true', String.isEmpty_eq_false_iff]

theorem popTail_front (front topic head separator : String) :
    popTail (front ++ topic) (front ++ head) separator = popTail topic head separator := by
  apply Option.ext
  intro rest
  simp only [popTail_eq_some, String.append_assoc, String.append_right_inj]

theorem parsePopNormalTopic_retry (tail : String) (hcid : cid ≠ "") :
    parsePopNormalTopic (retryGroupTopicPrefix ++ tail) cid =
      ((popTail tail cid "+").or (popTail tail cid "_")).getD (retryGroupTopicPrefix ++ tail) := by
  unfold parsePopNormalTopic
  rw [String.isEmpty_eq_false_iff.mpr hcid, startsWith_append, popTail_front,
    popTail_front]
  cases popTail tail cid "+" <;> rfl

/-- A name with one `+` has one tail behind it. -/
theorem popTail_plus {front : String} (hc : containsChar cid '+' = false)
    (hf : containsChar front '+' = false) :
    popTail (front ++ "+" ++ topic) cid "+" = some rest ↔
      cid = front ∧ topic = rest ∧ rest ≠ "" := by
  have hcut : cutAt '+' (front ++ "+" ++ topic) = some (front, topic) := cutAt_append topic hf
  rw [popTail_eq_some]
  constructor
  · rintro ⟨heq, hne⟩
    rw [cutAt_eq_some.mpr ⟨heq, hc⟩] at hcut
    obtain ⟨rfl, rfl⟩ := Prod.mk.inj (Option.some.inj hcut)
    exact ⟨rfl, rfl, hne⟩
  · rintro ⟨rfl, rfl, hne⟩
    exact ⟨rfl, hne⟩

theorem popTail_plus_none {name : String} (cid : String) (h : containsChar name '+' = false) :
    popTail name cid "+" = none := by
  rw [Option.eq_none_iff_forall_ne_some]
  intro rest hrest
  rw [(popTail_eq_some.mp hrest).1, containsChar_append, containsChar_append] at h
  have hplus : containsChar "+" '+' = true := rfl
  simp [hplus] at h

theorem containsChar_underscore {group : String} (hg : containsChar group '+' = false)
    (ht : containsChar topic '+' = false) : containsChar (group ++ "_" ++ topic) '+' = false := by
  rw [containsChar_append, containsChar_append, hg, ht]
  rfl

/-- **The two retry names of a topic** are read back, recognised and rebuilt for their group. -/
theorem popRetryTopic_roundTrip {topic cid : String} (hcid : cid ≠ "") (htopic : topic ≠ "")
    (hc : containsChar cid '+' = false) (ht : containsChar topic '+' = false) :
    (parsePopNormalTopic (buildPopRetryTopicV1 topic cid) cid = topic ∧
        retryOfTopic (buildPopRetryTopicV1 topic cid) = "1" ∧
        getRealTopic topic cid (retryOfTopic (buildPopRetryTopicV1 topic cid)) =
          .ok (buildPopRetryTopicV1 topic cid)) ∧
      parsePopNormalTopic (buildPopRetryTopicV2 topic cid) cid = topic ∧
        retryOfTopic (buildPopRetryTopicV2 topic cid) = "2" ∧
        getRealTopic topic cid (retryOfTopic (buildPopRetryTopicV2 topic cid)) =
          .ok (buildPopRetryTopicV2 topic cid) := by
  have hflag1 : retryOfTopic (buildPopRetryTopicV1 topic cid) = "1" := by
    rw [PopKind.retryOfTopic_eq]
    refine congrArg PopKind.flag ((PopKind.ofTopic_physical cid topic .retryV1).mpr ?_)
    show containsChar (cid ++ topic) '+' = false
    rw [containsChar_append, hc, ht]
    rfl
  have hflag2 : retryOfTopic (buildPopRetryTopicV2 topic cid) = "2" := by
    rw [PopKind.retryOfTopic_eq]
    exact congrArg PopKind.flag ((PopKind.ofTopic_physical cid topic .retryV2).mpr trivial)
  refine ⟨⟨?_, hflag1, ?_⟩, ?_, hflag2, ?_⟩
  · have htail : popTail (cid ++ "_" ++ topic) cid "_" = some topic :=
      popTail_eq_some.mpr ⟨rfl, htopic⟩
    rw [buildPopRetryTopicV1_eq, parsePopNormalTopic_retry _ hcid,
      popTail_plus_none _ (containsChar_underscore hc ht), htail]
    rfl
  · rw [hflag1]
    rfl
  · rw [buildPopRetryTopicV2_eq, parsePopNormalTopic_retry _ hcid,
      (popTail_plus hc hc).mpr ⟨rfl, rfl, htopic⟩]
    rfl
  · rw [hflag2]
    rfl

theorem popRetryTopic_roundTrip_underscores :
    parsePopNormalTopic (buildPopRetryTopicV1 "b_c" "a_b") "a_b" = "b_c" :=
  (popRetryTopic_roundTrip (by decide) (by decide) (by decide) (by decide)).1.1

theorem parsePopNormalTopic_unchanged {tail : String} (h : popTail tail cid "+" = none) :
    parsePopNormalTopic (retryGroupTopicPrefix ++ tail) cid = retryGroupTopicPrefix ++ tail ↔
      readsAsGroup cid tail = false := by
  unfold readsAsGroup
  by_cases hcid : cid = ""
  · rw [hcid]
    unfold parsePopNormalTopic
    simp
  · rw [parsePopNormalTopic_retry _ hcid, h, String.isEmpty_eq_false_iff.mpr hcid]
    cases htail : popTail tail cid "_" with
    | none => simp
    | some rest =>
      -- a tail is shorter than the name it was cut from
      have hne : rest ≠ retryGroupTopicPrefix ++ tail := by
        intro heq
        have hlen := congrArg (fun t => t.toList.length) (popTail_eq_some.mp htail).1
        rw [heq] at hlen
        simp at hlen
        omega
      simp [hne]

/-- **Another group's retry names are left alone**, exactly when they do not read as a name of
this group: the text behind the prefix is not the group, a `_` and something more. -/
theorem parsePopNormalTopic_other_iff {g h t : String} (hgh : g ≠ h)
    (hg : containsChar g '+' = false) (hh : containsChar h '+' = false)
    (ht : containsChar t '+' = false) :
    (parsePopNormalTopic (buildPopRetryTopicV1 t h) g = buildPopRetryTopicV1 t h ↔
        readsAsGroup g (h ++ "_" ++ t) = false) ∧
      (parsePopNormalTopic (buildPopRetryTopicV2 t h) g = buildPopRetryTopicV2 t h ↔
        readsAsGroup g (h ++ "+" ++ t) = false) := by
  rw [buildPopRetryTopicV1_eq, buildPopRetryTopicV2_eq]
  refine ⟨parsePopNormalTopic_unchanged ?_, parsePopNormalTopic_unchanged ?_⟩
  · exact popTail_plus_none g (containsChar_underscore hh ht)
  · rw [Option.eq_none_iff_forall_ne_some]
    exact fun rest hrest => hgh ((popTail_plus hg hh).mp hrest).1

theorem parsePopNormalTopic_other_apart :
    parsePopNormalTopic (buildPopRetryTopicV1 "T" "other") "mine" = "%RETRY%other_T" :=
  (parsePopNormalTopic_other_iff (by decide) (by decide) (by decide) (by decide)).1.mpr (by decide)

theorem parsePopNormalTopic_cuts_other :
    parsePopNormalTopic (buildPopRetryTopicV1 "T" "a_b") "a" = "b_T" ∧
      parsePopNormalTopic (buildPopRetryTopicV2 "T" "a_b") "a" = "b+T" := by
  decide

/-! ## 8. The topic a popped row is delivered under -/

theorem popNormalTopicOf_plain (h : isRetryTopic topic = false) (gs : List String) :
    popNormalTopicOf topic gs = topic := by
  have hs : startsWith topic retryGroupTopicPrefix = false := h
  induction gs with
  | nil => rfl
  | cons g gs ih =>
    have hparse : parsePopNormalTopic topic g = topic := by
      unfold parsePopNormalTopic
      rw [hs]
      simp
    unfold popNormalTopicOf
    rw [hparse, if_pos rfl, ih]

theorem restoredTopic_plain (h : isRetryTopic m.topic = false) : restoredTopic g m = m.topic := by
  have hne : m.topic ≠ getRetryTopic g.consumerGroup := by
    intro heq
    rw [heq] at h
    unfold isRetryTopic getRetryTopic at h
    rw [startsWith_append] at h
    cases h
  unfold restoredTopic
  split
  · rw [if_neg hne]
  · rfl

/-- **A row of a plain topic is delivered under another name** exactly when the topic carries the
client's namespace. -/
theorem delivered_topic_eq_iff (h : isRetryTopic m.topic = false) :
    (resetRetryTopicAndNamespaceMsg g (resetPopRetryTopicMsg g m)).topic = m.topic ↔
      NamespaceUtil.carriesNamespace m.topic g.nameSpace = false := by
  have hpop : resetPopRetryTopicMsg g m = m := by
    unfold resetPopRetryTopicMsg
    rw [popNormalTopicOf_plain h]
  rw [hpop]
  unfold resetRetryTopicAndNamespaceMsg
  rw [restoredTopic_plain h]
  dsimp only
  by_cases hns : g.nameSpace.isEmpty = true
  · simp [hns, NamespaceUtil.carriesNamespace]
  · rw [if_neg hns]
    exact NamespaceUtil.withoutNamespace_eq_self_iff (Bool.eq_false_iff.mpr hns)

end RocketMQ
