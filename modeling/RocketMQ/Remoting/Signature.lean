/-
  File:      RocketMQ/Remoting/Signature.lean
  Subject:   What a client signs, and what a broker finds in the frame.

  After `remoting/rpchook.rs`, `ext_fields.rs` and `send_request` of `client.rs`. The signature is
  made over the values of the extension fields, sorted by key, and the body; it is made before the
  frame is encoded, and the header object is merged into the fields both times.

  * `buildRequestContent_content`, `brokerContent_eq`: the loop of the client and the map of the
    broker put the same values in the same order;
  * `signature_agrees`: **both sides sign the same bytes**, and a resend is signed as before.
-/
import RocketMQ.Lib.Assoc
import RocketMQ.Lib.Table
import RocketMQ.Remoting.RoundTrip

namespace RocketMQ

open List

/-! ## 1. Tables of fields -/

namespace ExtFields

/-- The keys of a table are distinct: it is filled by `insert` only. -/
def Distinct (m : ExtFields) : Prop := (m.entries.map Prod.fst).Nodup

/-- `sorted`: by the key. The order of strings is that of their bytes. -/
def sorted (m : ExtFields) : List (String × String) :=
  m.entries.insertionSort fun a b => a.1 ≤ b.1

/-- One insertion after the other. -/
def insertAll (m : ExtFields) (ops : List (String × String)) : ExtFields :=
  ops.foldl (fun m e => m.insert e.1 e.2) m

theorem keys_insertEntry (key value : String) (es : List (String × String)) :
    (insertEntry key value es).map Prod.fst
      = if key ∈ es.map Prod.fst then es.map Prod.fst else es.map Prod.fst ++ [key] := by
  induction es with
  | nil => rfl
  | cons e es ih =>
    unfold insertEntry
    by_cases he : e.1 = key
    · simp [he]
    · simp only [beq_iff_eq, he, if_false, map_cons, ih, mem_cons, Ne.symm he, false_or]
      split <;> rfl

theorem mem_insertEntry (key value : String) (es : List (String × String)) :
    (key, value) ∈ insertEntry key value es := by
  induction es with
  | nil => exact mem_singleton_self _
  | cons e es ih =>
    unfold insertEntry
    split
    · exact mem_cons_self
    · exact mem_cons_of_mem _ ih

namespace Distinct

variable {m : ExtFields}

theorem insert (h : m.Distinct) (key value : String) : (m.insert key value).Distinct := by
  show ((insertEntry key value m.entries).map Prod.fst).Nodup
  rw [keys_insertEntry]
  split
  · exact h
  · rename_i hnew
    exact nodup_append'.mpr ⟨h, nodup_singleton _, by simpa using hnew⟩

theorem insertAll (h : m.Distinct) (ops : List (String × String)) : (m.insertAll ops).Distinct := by
  induction ops generalizing m with
  | nil => exact h
  | cons e es ih => exact ih (h.insert e.1 e.2)

theorem mem_iff_get (h : m.Distinct) {e : String × String} :
    e ∈ m.entries ↔ m.get e.1 = some e.2 := by
  have hinj : ∀ a ∈ m.entries, ∀ b ∈ m.entries, a.1 = b.1 → a = b := fun a ha b hb heq =>
    inj_on_of_nodup_map h ha hb heq
  unfold ExtFields.get
  rw [Option.map_eq_some_iff]
  constructor
  · intro he
    obtain ⟨x, hx⟩ := Option.isSome_iff_exists.mp
      (find?_isSome (p := fun x => x.1 == e.1).mpr
        ⟨e, mem_reverse.mpr he, beq_self_eq_true e.1⟩)
    have hkey : x.1 = e.1 := by simpa using find?_some hx
    obtain rfl := hinj x (mem_reverse.mp (mem_of_find?_eq_some hx)) e he hkey
    exact ⟨x, hx, rfl⟩
  · rintro ⟨x, hx, hvalue⟩
    have hkey : x.1 = e.1 := by simpa using find?_some hx
    have hmem := mem_reverse.mp (mem_of_find?_eq_some hx)
    rwa [Prod.ext hkey hvalue] at hmem

/-- **A table after an insertion.** -/
theorem get_insert (h : m.Distinct) (key value : String) :
    (m.insert key value).get = Function.update m.get key (some value) := by
  funext k
  by_cases hk : k = key
  · subst hk
    rw [Function.update_self]
    exact (h.insert k value).mem_iff_get.mp (mem_insertEntry k value m.entries)
  · rw [Function.update_of_ne hk]
    exact get_insert_ne m value hk

theorem get_insertAll (h : m.Distinct) (ops : List (String × String)) :
    (m.insertAll ops).get = Assoc.assign ops m.get := by
  induction ops generalizing m with
  | nil => rfl
  | cons e es ih =>
    refine (ih (h.insert e.1 e.2)).trans ?_
    rw [h.get_insert]
    rfl

end Distinct

end ExtFields

/-! ## 2. The hooks -/

structure SessionCredentials where
  accessKey : String
  secretKey : String
  securityToken : String
  deriving DecidableEq, Repr

variable (c : RemotingCommand)

def RemotingCommand.addExtField (key value : String) : RemotingCommand :=
  { c with extFields := c.extFields.insert key value }

/-- `SessionCredentials::SIGNATURE`. -/
def signatureKey : String := "Signature"

/-- `build_request_content`: the header object is merged into the request first. -/
def buildRequestContent (request : RemotingCommand) : RemotingCommand × List UInt8 :=
  let request := request.makeCustomHeaderToNet
  let buf := request.extFields.sorted.foldl
    (fun buf e => if e.1 = signatureKey then buf else buf ++ strBytes e.2) []
  (request, match request.body with
    | some body => buf ++ body
    | none => buf)

/-- **What a broker recomputes** from the command it has decoded: the fields but for the signature
in an ordered map, its values in the order of the keys, and the body behind them. -/
def brokerContent (command : RemotingCommand) : List UInt8 :=
  let fields := Std.ExtTreeMap.ofList
    (command.extFields.entries.filter fun e => e.1 != "Signature")
  fields.toList.flatMap (fun e => strBytes e.2) ++ command.body.getD []

section

-- the code of a content under a secret key: HMAC-SHA1 in base64
variable (mac : List UInt8 → List UInt8 → String)

def calcSignature (secretKey : String) (request : RemotingCommand) : RemotingCommand × String :=
  let built := buildRequestContent request
  (built.1, mac (strBytes secretKey) built.2)

/-- The fields that the ACL hook adds before it signs. -/
def addCredentials (credentials : SessionCredentials) (request : RemotingCommand) :
    RemotingCommand :=
  let request := request.addExtField "AccessKey" credentials.accessKey
  if credentials.securityToken = "" then request
  else request.addExtField "SecurityToken" credentials.securityToken

/-- The three hooks; a namespace that was not given is the empty one. -/
inductive RpcHook where
  | acl (credentials : SessionCredentials)
  | namespaced (namespaceV2 : String)
  | streamType
  deriving DecidableEq, Repr

def RpcHook.doBeforeRequest (request : RemotingCommand) : RpcHook → RemotingCommand
  | .acl credentials =>
    let signed := calcSignature mac credentials.secretKey (addCredentials credentials request)
    signed.1.addExtField signatureKey signed.2
  | .namespaced namespaceV2 =>
    if namespaceV2 = "" then request
    else (request.addExtField "nsd" "true").addExtField "ns" namespaceV2
  | .streamType => request.addExtField "ReqT" (toString (0 : Int))

/-- The hooks of `send_request`, in the order in which they were registered. -/
def beforeRequest (hooks : List RpcHook) (request : RemotingCommand) : RemotingCommand :=
  hooks.foldl (fun request hook => hook.doBeforeRequest mac request) request

/-- The request as `write_frame` leaves it: `encode` merges the header object once more. -/
def sentRequest (hooks : List RpcHook) (request : RemotingCommand) : RemotingCommand :=
  (beforeRequest mac hooks request).makeCustomHeaderToNet

/-- The request that goes out again after `GO_AWAY`: a copy under another number. -/
def resentRequest (request : RemotingCommand) (requestId : Int32) : RemotingCommand :=
  { request with requestId }

end

/-! ## 3. Hooks as insertions -/

namespace RemotingCommand

/-- A command with more fields. -/
def withFields (ops : List (String × String)) : RemotingCommand :=
  { c with extFields := c.extFields.insertAll ops }

/-- The fields of the header object. -/
def headerEntries : List (String × String) :=
  (c.customHeader.map ExtFields.entries).getD []

theorem withFields_append (ops₁ ops₂ : List (String × String)) :
    c.withFields (ops₁ ++ ops₂) = (c.withFields ops₁).withFields ops₂ := by
  unfold withFields ExtFields.insertAll
  rw [foldl_append]

theorem makeCustomHeaderToNet_withFields :
    c.makeCustomHeaderToNet = c.withFields c.headerEntries := by
  obtain ⟨code, language, version, requestId, flag, remark, st, body, ext, header⟩ := c
  cases header with
  | none | some => rfl

end RemotingCommand

/-- A hook that adds fields and does not sign. -/
def RpcHook.Plain : RpcHook → Prop
  | .acl _ => False
  | _ => True

/-- The fields that a hook adds. -/
def RpcHook.fields : RpcHook → List (String × String)
  | .acl _ => []
  | .namespaced namespaceV2 =>
    if namespaceV2 = "" then [] else [("nsd", "true"), ("ns", namespaceV2)]
  | .streamType => [("ReqT", toString (0 : Int))]

def SessionCredentials.fields (credentials : SessionCredentials) : List (String × String) :=
  ("AccessKey", credentials.accessKey)
    :: if credentials.securityToken = "" then []
      else [("SecurityToken", credentials.securityToken)]

theorem addCredentials_eq (credentials : SessionCredentials) (request : RemotingCommand) :
    addCredentials credentials request = request.withFields credentials.fields := by
  unfold addCredentials SessionCredentials.fields
  split
  · rfl
  · rfl

section

variable {mac : List UInt8 → List UInt8 → String} {before : List RpcHook}
  {credentials : SessionCredentials} {request : RemotingCommand}

theorem RpcHook.Plain.doBeforeRequest {hook : RpcHook} (h : hook.Plain) :
    hook.doBeforeRequest mac request = request.withFields hook.fields := by
  cases hook with
  | acl credentials => exact h.elim
  | namespaced namespaceV2 =>
    show (if namespaceV2 = "" then request
      else (request.addExtField "nsd" "true").addExtField "ns" namespaceV2)
        = request.withFields (if namespaceV2 = "" then [] else _)
    split
    · rfl
    · rfl
  | streamType => rfl

theorem beforeRequest_plain (h : ∀ hook ∈ before, hook.Plain) :
    beforeRequest mac before request = request.withFields (before.flatMap RpcHook.fields) := by
  induction before generalizing request with
  | nil => rfl
  | cons hook before ih =>
    show beforeRequest mac before (hook.doBeforeRequest mac request) = _
    rw [ih fun hook' hmem => h hook' (mem_cons_of_mem _ hmem),
      (h hook mem_cons_self).doBeforeRequest, ← RemotingCommand.withFields_append,
      flatMap_cons]

/-- The values in the order of their keys, the signature left out, and the body. -/
def requestContent (request : RemotingCommand) : List UInt8 :=
  (request.extFields.sorted.filter fun e => e.1 != signatureKey).flatMap (fun e => strBytes e.2)
    ++ request.body.getD []

/-- **The loop of the client** collects these. -/
theorem buildRequestContent_content (request : RemotingCommand) :
    (buildRequestContent request).2 = requestContent request.makeCustomHeaderToNet := by
  have hloop : ∀ (es : List (String × String)) (buf : List UInt8), es.foldl
      (fun buf e => if e.1 = signatureKey then buf else buf ++ strBytes e.2) buf
        = buf ++ (es.filter fun e => e.1 != signatureKey).flatMap fun e => strBytes e.2 := by
    intro es
    induction es with
    | nil => simp
    | cons e es ih =>
      intro buf
      rw [foldl_cons, ih]
      by_cases he : e.1 = signatureKey
      · simp [he]
      · simp [he]
  unfold buildRequestContent requestContent
  dsimp only
  rw [hloop]
  cases request.makeCustomHeaderToNet.body with
  | none | some => simp

/-- **The map of the broker** holds the same in the same order. -/
theorem brokerContent_eq {c : RemotingCommand} (h : c.extFields.Distinct) :
    brokerContent c = requestContent c := by
  have hlist : (Std.ExtTreeMap.ofList (c.extFields.entries.filter fun e =>
      e.1 != "Signature")).toList = c.extFields.sorted.filter fun e => e.1 != signatureKey := by
    refine (Std.ExtTreeMap.ordered_keys_toList.imp compare_lt_iff_lt.mp).eq_of_mem_iff
      ((Assoc.pairwise_sort h).filter _) fun e => ?_
    rw [Table.mem_toList_ofList (List.Pairwise.filter _ (pairwise_map.mp h)), mem_filter, mem_filter,
      ExtFields.sorted, mem_insertionSort]
    rfl
  unfold brokerContent requestContent
  dsimp only
  rw [hlist]

/-- The fields of the ACL hook, those of the header object last. -/
def signFields (credentials : SessionCredentials) (request : RemotingCommand) :
    List (String × String) := credentials.fields ++ request.headerEntries

/-- **The request when it is signed.** -/
theorem buildRequestContent_eq :
    buildRequestContent (addCredentials credentials request)
      = (request.withFields (signFields credentials request),
        requestContent (request.withFields (signFields credentials request))) := by
  have hmerged : (request.withFields credentials.fields).makeCustomHeaderToNet
      = request.withFields (signFields credentials request) := by
    rw [RemotingCommand.makeCustomHeaderToNet_withFields, signFields,
      RemotingCommand.withFields_append]
    rfl
  refine Prod.ext ?_ ?_
  · show (addCredentials credentials request).makeCustomHeaderToNet = _
    rw [addCredentials_eq, hmerged]
  · rw [buildRequestContent_content, addCredentials_eq, hmerged]

theorem doBeforeRequest_acl :
    (RpcHook.acl credentials).doBeforeRequest mac request
      = (request.withFields (signFields credentials request)).addExtField signatureKey
        (mac (strBytes credentials.secretKey)
          (requestContent (request.withFields (signFields credentials request)))) := by
  show (buildRequestContent (addCredentials credentials request)).1.addExtField signatureKey
    (mac _ (buildRequestContent (addCredentials credentials request)).2) = _
  rw [buildRequestContent_eq]

/-! ## 4. What is signed -/

/-- The fields but for the signature, and the body. -/
structure SameContent (c c' : RemotingCommand) : Prop where
  fields : ∀ key ≠ signatureKey, c.extFields.get key = c'.extFields.get key
  body : c.body = c'.body

variable {c : RemotingCommand}

/-- **The order of the fields does not matter**, nor does the signature. -/
theorem requestContent_congr {c' : RemotingCommand} (hc : c.extFields.Distinct)
    (hc' : c'.extFields.Distinct) (h : SameContent c c') :
    requestContent c = requestContent c' := by
  have hsorted : c.extFields.sorted.filter (fun e => e.1 != signatureKey)
      = c'.extFields.sorted.filter fun e => e.1 != signatureKey := by
    refine Assoc.sort_filter_eq hc hc' _ fun e he => ?_
    rw [hc.mem_iff_get, hc'.mem_iff_get, h.fields e.1 (bne_iff_ne.mp he)]
  unfold requestContent
  rw [hsorted, h.body]

theorem SameContent.sign (c : RemotingCommand) (signature : String) :
    SameContent (c.addExtField signatureKey signature) c where
  fields _ hkey := ExtFields.get_insert_ne c.extFields signature hkey
  body := rfl

/-- **The last fields, merged in once more, change nothing.** -/
theorem SameContent.again {ops₁ ops₂ : List (String × String)} (hc : c.extFields.Distinct)
    (hd : request.extFields.Distinct) (h : SameContent c (request.withFields (ops₁ ++ ops₂))) :
    SameContent (c.withFields ops₂) (request.withFields (ops₁ ++ ops₂)) where
  fields key hkey := by
    have hget := hd.get_insertAll (ops₁ ++ ops₂)
    have hsame : c.extFields.get key = Assoc.assign (ops₁ ++ ops₂) request.extFields.get key :=
      (h.fields key hkey).trans (congrFun hget key)
    calc (c.withFields ops₂).extFields.get key
        = Assoc.assign ops₂ c.extFields.get key := congrFun (hc.get_insertAll ops₂) key
      _ = Assoc.assign (ops₁ ++ ops₂) request.extFields.get key := Assoc.assign_again hsame
      _ = (request.withFields (ops₁ ++ ops₂)).extFields.get key := (congrFun hget key).symm
  body := h.body

theorem beforeRequest_concat (hook : RpcHook) :
    beforeRequest mac (before ++ [hook]) request
      = hook.doBeforeRequest mac (beforeRequest mac before request) := by
  simp only [beforeRequest, foldl_append, foldl_cons, foldl_nil]

/-- **The request that is signed**: all hooks have added their fields, and the header object its. -/
def signedRequest (before : List RpcHook) (credentials : SessionCredentials)
    (request : RemotingCommand) : RemotingCommand :=
  request.withFields (before.flatMap RpcHook.fields ++ signFields credentials request)

theorem withFields_signFields (h : ∀ hook ∈ before, hook.Plain) :
    (beforeRequest mac before request).withFields
        (signFields credentials (beforeRequest mac before request))
      = signedRequest before credentials request := by
  rw [signedRequest, RemotingCommand.withFields_append, beforeRequest_plain h]
  rfl

theorem beforeRequest_acl (h : ∀ hook ∈ before, hook.Plain) :
    beforeRequest mac (before ++ [.acl credentials]) request
      = (signedRequest before credentials request).addExtField signatureKey
        (mac (strBytes credentials.secretKey)
          (requestContent (signedRequest before credentials request))) := by
  rw [beforeRequest_concat, doBeforeRequest_acl, withFields_signFields h]

theorem distinct_encoded (h : c.extFields.Distinct) :
    c.makeCustomHeaderToNet.extFields.Distinct := by
  rw [RemotingCommand.makeCustomHeaderToNet_withFields]
  exact h.insertAll _

section

variable (hd : request.extFields.Distinct) (before credentials)
include hd

theorem distinct_signedRequest :
    (signedRequest before credentials request).extFields.Distinct := hd.insertAll _

theorem distinct_addSignature (signature : String) :
    ((signedRequest before credentials request).addExtField signatureKey
      signature).extFields.Distinct :=
  (distinct_signedRequest before credentials hd).insert signatureKey signature

theorem sameContent_encoded (signature : String) :
    SameContent ((signedRequest before credentials request).addExtField signatureKey
      signature).makeCustomHeaderToNet (signedRequest before credentials request) := by
  rw [RemotingCommand.makeCustomHeaderToNet_withFields]
  have hsign := SameContent.sign (signedRequest before credentials request) signature
  have hdistinct := distinct_addSignature before credentials hd signature
  unfold signedRequest signFields at hsign hdistinct ⊢
  rw [← append_assoc] at hsign hdistinct ⊢
  exact hsign.again hdistinct hd

theorem brokerContent_received (signature : String) :
    brokerContent (received ((signedRequest before credentials request).addExtField signatureKey
      signature)) = requestContent (signedRequest before credentials request) := by
  have hsame := sameContent_encoded before credentials hd signature
  have hdistinct := distinct_encoded (distinct_addSignature before credentials hd signature)
  exact (brokerContent_eq (c := received _) hdistinct).trans (requestContent_congr hdistinct
    (distinct_signedRequest before credentials hd) ⟨hsame.fields, hsame.body⟩)

theorem requestContent_again (signature : String) :
    requestContent (((signedRequest before credentials request).addExtField signatureKey
      signature).withFields (signFields credentials request))
        = requestContent (signedRequest before credentials request) := by
  have hsigned := distinct_addSignature before credentials hd signature
  have hsign := SameContent.sign (signedRequest before credentials request) signature
  exact requestContent_congr (hsigned.insertAll _) (distinct_signedRequest before credentials hd)
    (hsign.again hsigned hd)

theorem requestContent_resent {c : RemotingCommand} (hc : c.extFields.Distinct)
    (hheader : c.customHeader = request.customHeader)
    (hsame : SameContent c (signedRequest before credentials request)) :
    requestContent (signedRequest before credentials c)
      = requestContent (signedRequest before credentials request) := by
  have hfields : signFields credentials c = signFields credentials request := by
    unfold signFields RemotingCommand.headerEntries
    rw [hheader]
  have hagain : SameContent (signedRequest before credentials c)
      (signedRequest before credentials request) := by
    unfold signedRequest at hsame ⊢
    rw [hfields]
    exact @SameContent.again _ _ [] _ hc hd hsame
  exact requestContent_congr (distinct_signedRequest before credentials hc)
    (distinct_signedRequest before credentials hd) hagain

end

theorem get_signature (hd : c.extFields.Distinct) (signature : String) :
    (c.addExtField signatureKey signature).extFields.get signatureKey = some signature := by
  show (c.extFields.insert signatureKey signature).get signatureKey = _
  rw [hd.get_insert, Function.update_self]

theorem signature_resent (h : ∀ hook ∈ before, hook.Plain) (hd : request.extFields.Distinct)
    (hc : c.extFields.Distinct) (hheader : c.customHeader = request.customHeader)
    (hsame : SameContent c (signedRequest before credentials request)) :
    (beforeRequest mac (before ++ [.acl credentials]) c).extFields.get signatureKey
      = (beforeRequest mac (before ++ [.acl credentials]) request).extFields.get signatureKey := by
  rw [beforeRequest_acl h, beforeRequest_acl h,
    get_signature (distinct_signedRequest before credentials hc),
    get_signature (distinct_signedRequest before credentials hd),
    requestContent_resent before credentials hd hc hheader hsame]

end

/-- **Both sides sign the same bytes**, and a request that goes out again is signed as before. -/
theorem signature_agrees (lib : StdLib) (checked : Bool) (mac : List UInt8 → List UInt8 → String)
    (before : List RpcHook) (credentials : SessionCredentials) (request : RemotingCommand)
    (hbefore : ∀ hook ∈ before, hook.Plain) (hdistinct : request.extFields.Distinct) :
    (Sendable lib checked (beforeRequest mac (before ++ [RpcHook.acl credentials]) request) →
      ∃ back, RemotingCommand.decode lib checked
          ((beforeRequest mac (before ++ [RpcHook.acl credentials]) request).encode lib)
            = .ok back ∧
        brokerContent back = (buildRequestContent
          (addCredentials credentials (beforeRequest mac before request))).2 ∧
        (beforeRequest mac (before ++ [RpcHook.acl credentials]) request).extFields.get signatureKey
          = some (mac (strBytes credentials.secretKey) (brokerContent back))) ∧
    ((RpcHook.acl credentials).doBeforeRequest mac
        (beforeRequest mac (before ++ [RpcHook.acl credentials]) request)).extFields.get
          signatureKey
      = (beforeRequest mac (before ++ [RpcHook.acl credentials]) request).extFields.get
          signatureKey ∧
    ∀ requestId, (beforeRequest mac (before ++ [RpcHook.acl credentials]) (resentRequest
        (sentRequest mac (before ++ [RpcHook.acl credentials]) request) requestId)).extFields.get
          signatureKey
      = (beforeRequest mac (before ++ [RpcHook.acl credentials]) request).extFields.get
          signatureKey := by
  have hsigned := distinct_signedRequest before credentials hdistinct
  refine ⟨fun hsend => ⟨_, (decode_encode hsend).trans (headerDecode_headerEncode hsend), ?_, ?_⟩,
    ?_, fun requestId => ?_⟩
  · rw [beforeRequest_acl hbefore, brokerContent_received before credentials hdistinct,
      buildRequestContent_eq, withFields_signFields hbefore]
  · rw [beforeRequest_acl hbefore, brokerContent_received before credentials hdistinct,
      get_signature hsigned]
  · -- the fields of this hook come last, and they are there already
    rw [doBeforeRequest_acl, beforeRequest_acl hbefore, get_signature hsigned,
      get_signature ((distinct_addSignature before credentials hdistinct _).insertAll _)]
    exact congrArg (fun content => some (mac _ content))
      (requestContent_again before credentials hdistinct _)
  · have hadded := distinct_addSignature before credentials hdistinct
      (mac (strBytes credentials.secretKey)
        (requestContent (signedRequest before credentials request)))
    have hsame := sameContent_encoded before credentials hdistinct
      (mac (strBytes credentials.secretKey)
        (requestContent (signedRequest before credentials request)))
    rw [← beforeRequest_acl hbefore] at hadded hsame
    refine signature_resent hbefore hdistinct (distinct_encoded hadded) ?_
      ⟨hsame.fields, hsame.body⟩
    show (beforeRequest mac _ request).makeCustomHeaderToNet.customHeader = _
    rw [RemotingCommand.makeCustomHeaderToNet_withFields, beforeRequest_acl hbefore]
    rfl

open Script

/-- A pull request with both other hooks; the code is the length of the content. -/
theorem signature_agrees_pull :
    ∃ back, RemotingCommand.decode noFloats true
        ((beforeRequest (fun _ content => toString content.length)
          ([.namespaced "N", .streamType] ++ [RpcHook.acl ⟨"ak", "sk", ""⟩])
          pullCommand).encode
            noFloats) = .ok back ∧
      (beforeRequest (fun _ content => toString content.length)
        ([.namespaced "N", .streamType] ++ [RpcHook.acl ⟨"ak", "sk", ""⟩])
        pullCommand).extFields.get
          signatureKey = some (toString (brokerContent back).length) := by
  have hagrees := signature_agrees noFloats true (fun _ content => toString content.length)
    [.namespaced "N", .streamType] ⟨"ak", "sk", ""⟩ pullCommand
    (by rintro hook (_ | ⟨_, _ | ⟨_, ⟨⟩⟩⟩) <;> trivial) (nodup_singleton "topic")
  obtain ⟨back, hback, _, hsignature⟩ := hagrees.1
    ⟨by decide +kernel, by decide +kernel, by decide +kernel, by decide +kernel, by decide +kernel,
      by decide +kernel, by decide +kernel, by decide +kernel, by decide +kernel,
      by decide +kernel⟩
  exact ⟨back, hback, hsignature⟩

end RocketMQ
