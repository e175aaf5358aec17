import PqAuth.Server.ErrorText
import PqAuth.Server.Transition
import PqAuth.Source.RunServer
import PqAuth.Source.Transparent

/-! The service does what the server does: requests arrive as they were meant,
however their JSON is laid out, and replies tell everything the server replied. -/
namespace PqAuth
open Json

theorem EnrollBeginRequest.fromJson_iff {j : Json} {req : EnrollBeginRequest} :
    fromJson j = some req ↔ Gives ["user_id"] [.string req.userId] j := by
  obtain ⟨userId⟩ := req
  rw [← fields_eq_some, fromJson]
  rcases fields ["user_id"] j with _ | _ | ⟨v,_ | ⟨w,vs⟩⟩ <;> simp [Option.bind_eq_some_iff, asString_eq_some]

theorem ChallengeRequest.fromJson_iff {j : Json} {req : ChallengeRequest} :
    fromJson j = some req ↔ Gives ["user_id"] [.string req.userId] j := by
  obtain ⟨userId⟩ := req
  rw [← fields_eq_some, fromJson]
  rcases fields ["user_id"] j with _ | _ | ⟨v,_ | ⟨w,vs⟩⟩ <;> simp [Option.bind_eq_some_iff, asString_eq_some]

theorem EnrollCompleteRequest.fromJson_iff {j : Json} {req : EnrollCompleteRequest} :
    fromJson j = some req ↔ Gives ["user_id","ciphertext","dilithium_public_key"]
      [.string req.userId,.string req.ciphertext,.string req.dilithiumPublicKey] j := by
  obtain ⟨userId,ciphertext,dilithiumPublicKey⟩ := req
  rw [← fields_eq_some, fromJson]
  rcases fields ["user_id","ciphertext","dilithium_public_key"] j with
    _ | _ | ⟨a,_ | ⟨b,_ | ⟨c,_ | ⟨d,vs⟩⟩⟩⟩ <;> simp [Option.bind_eq_some_iff, asString_eq_some]

namespace VerifyMethod

theorem totpFromJson_iff {j : Json} {method : VerifyMethod} :
    totpFromJson j = some method ↔
      ∃ code : UInt32, Gives ["totp_code"] [ofNat code.toNat] j ∧ .totp code = method := by
  simp only [← fields_eq_some, totpFromJson]
  rcases fields ["totp_code"] j with _ | _ | ⟨v,_ | ⟨w,vs⟩⟩ <;> simp [Option.bind_eq_some_iff, asU32_eq_some]

theorem challengeFromJson_iff {j : Json} {method : VerifyMethod} :
    challengeFromJson j = some method ↔
      ∃ nonce clientTimestamp signature, Gives ["nonce","client_timestamp","signature"]
          [.string nonce,ofNat clientTimestamp.toNat,.string signature] j ∧
        .challenge nonce clientTimestamp signature = method := by
  simp only [← fields_eq_some, challengeFromJson]
  rcases fields ["nonce","client_timestamp","signature"] j with
    _ | _ | ⟨a,_ | ⟨b,_ | ⟨c,_ | ⟨d,vs⟩⟩⟩⟩ <;>
    simp [Option.bind_eq_some_iff, asString_eq_some, asU64_eq_some, and_assoc]

/-- The first variant wins. -/
theorem fromJson_iff {j : Json} {method : VerifyMethod} :
    fromJson j = some method ↔ totpFromJson j = some method ∨
      totpFromJson j = none ∧ challengeFromJson j = some method := by
  rw [fromJson]
  cases totpFromJson j <;> simp

end VerifyMethod

/-- What a body says of the method: a code, or a challenge response where no code can be read. -/
def SaysMethod (ms : Members) : VerifyMethod → Prop
  | .totp code => member "totp_code" ms = some (ofNat code.toNat)
  | .challenge nonce clientTimestamp signature =>
    (∀ code : UInt32, member "totp_code" ms ≠ some (ofNat code.toNat)) ∧ member "nonce" ms = some (.string nonce) ∧
      member "client_timestamp" ms = some (ofNat clientTimestamp.toNat) ∧
      member "signature" ms = some (.string signature)

theorem gives_object {names : List String} {vs : List Json} {ms : Members} :
    Gives names vs (.object ms) ↔ List.Forall₂ (fun k v => member k ms = some v) names vs := by
  simp [Gives]

theorem VerifyMethod.fromJson_object_iff {ms : Members} {method : VerifyMethod} :
    VerifyMethod.fromJson (.object ms) = some method ↔ SaysMethod ms method := by
  have hnone : VerifyMethod.totpFromJson (.object ms) = none ↔
      ∀ code : UInt32, member "totp_code" ms ≠ some (ofNat code.toNat) := by
    simp [Option.eq_none_iff_forall_ne_some, totpFromJson_iff, gives_object]
  rw [fromJson_iff, totpFromJson_iff, challengeFromJson_iff, hnone]
  cases method <;> simp [SaysMethod, gives_object, and_assoc]

theorem saysMethod_filter {ms : Members} {method : VerifyMethod} :
    SaysMethod (ms.filter (fun m => m.1 != "user_id")) method ↔ SaysMethod ms method := by
  have hkeep {k : String} (hk : (k != "user_id") = true) :
      member k (ms.filter (fun m => m.1 != "user_id")) = member k ms :=
    @member_filter (fun name => name != "user_id") k hk ms
  cases method with
  | totp code => rw [SaysMethod, SaysMethod, hkeep (by decide)]
  | challenge nonce clientTimestamp signature =>
    rw [SaysMethod, SaysMethod, hkeep (by decide), hkeep (by decide), hkeep (by decide), hkeep (by decide)]

/-- All members but the user's can be kept until the method is read. -/
def Buffered (ms : Members) : Prop := ∀ m ∈ ms, m.1 ≠ "user_id" → m.2.buffers VerifyRequest.memberDepth = true

theorem buffered_iff {ms : Members} : Buffered ms ↔
    (ms.filter (fun m => m.1 != "user_id")).all (fun m => m.2.buffers VerifyRequest.memberDepth) = true := by
  simp [Buffered, or_iff_not_imp_left]

theorem VerifyRequest.fromJson_iff {j : Json} {req : VerifyRequest} :
    fromJson j = some req ↔ ∃ ms, j = .object ms ∧ Buffered ms ∧ member "user_id" ms = some (.string req.userId) ∧
      SaysMethod ms req.method := by
  cases j with
  | object ms =>
    obtain ⟨userId,method⟩ := req
    simp only [Json.object.injEq, exists_eq_left']
    rw [← saysMethod_filter, ← VerifyMethod.fromJson_object_iff, buffered_iff, VerifyRequest.fromJson]
    cases member "user_id" ms with
    | none => simp
    | some v =>
      cases VerifyMethod.fromJson (.object (ms.filter (fun m => m.1 != "user_id"))) with
      | none => simp
      | some method' => simp [asString_eq_some, Option.bind_eq_some_iff]
  | _ => simp [VerifyRequest.fromJson]

namespace Request

def route : Request → Route
  | .enrollBegin _ => .enrollBegin
  | .enrollComplete _ => .enrollComplete
  | .issueChallenge _ => .challenge
  | .verify _ => .verify

/-- The document says the request. -/
def SaidBy (body : Json) : Request → Prop
  | .enrollBegin userId => Gives ["user_id"] [.string userId] body
  | .enrollComplete req => Gives ["user_id","ciphertext","dilithium_public_key"]
      [.string req.userId,.string req.ciphertext,.string req.dilithiumPublicKey] body
  | .issueChallenge userId => Gives ["user_id"] [.string userId] body
  | .verify req => ∃ ms, body = .object ms ∧ Buffered ms ∧ member "user_id" ms = some (.string req.userId) ∧
      SaysMethod ms req.method

/-- The members of the document a client sends. -/
def members : Request → Members
  | .enrollBegin userId => (EnrollBeginRequest.mk userId).members
  | .enrollComplete req => req.members
  | .issueChallenge userId => (ChallengeRequest.mk userId).members
  | .verify req => req.members

/-- The names that bear on how it is read. A code beside a challenge response makes a difference. -/
def known : Request → List String
  | .enrollBegin _ => ["user_id"]
  | .enrollComplete _ => ["user_id","ciphertext","dilithium_public_key"]
  | .issueChallenge _ => ["user_id"]
  | .verify ⟨_,.totp _⟩ => ["user_id","totp_code"]
  | .verify ⟨_,.challenge ..⟩ => ["user_id","totp_code","nonce","client_timestamp","signature"]

end Request

namespace RunServer

theorem extract_iff {r : Route} {body : Json} {request : Request} :
    extract r body = some request ↔ r = request.route ∧ request.SaidBy body := by
  cases r <;> cases request <;> simp [extract, Request.route, Request.SaidBy, EnrollBeginRequest.fromJson_iff,
    EnrollCompleteRequest.fromJson_iff, ChallengeRequest.fromJson_iff, VerifyRequest.fromJson_iff]
  all_goals exact ⟨fun ⟨_,h,heq⟩ => heq ▸ h,fun h => ⟨⟨_⟩,h,rfl⟩⟩

theorem route_iff {r : HttpRequest} {target : Route} :
    route r = some target ↔ r.method = "POST" ∧ r.path = target.path := by
  obtain ⟨method,path,body⟩ := r
  constructor
  · intro h
    rw [route, Option.ite_none_right_eq_some] at h
    have hpath := List.find?_some (p := fun target : Route => target.path == path) h.2
    exact ⟨eq_of_beq h.1,(eq_of_beq hpath).symm⟩
  · rintro ⟨rfl,rfl⟩
    cases target <;> rfl

/-- Which HTTP requests reach a handler, and with which argument. -/
theorem decode_iff (r : HttpRequest) (request : Request) :
    decode r = some request ↔ r.method = "POST" ∧ r.path = request.route.path ∧
      ∃ body, r.body = some body ∧ request.SaidBy body := by
  simp only [decode, Option.bind_eq_bind, Option.bind_eq_some_iff, route_iff, extract_iff]
  constructor
  · rintro ⟨target,⟨hmethod,hpath⟩,body,hbody,rfl,hsaid⟩
    exact ⟨hmethod,hpath,body,hbody,hsaid⟩
  · rintro ⟨hmethod,hpath,body,hbody,hsaid⟩
    exact ⟨request.route,⟨hmethod,hpath⟩,body,hbody,rfl,hsaid⟩

/-- A verification is refused for a number too large to keep, which a challenge request skips. -/
example (text : Bytes) :
    decode ⟨"POST","/verify",some (.object [("user_id",.string "alice"),("totp_code",ofNat 1),("x",.unread text)])⟩ =
      none ∧
    decode ⟨"POST","/challenge",some (.object [("user_id",.string "alice"),("x",.unread text)])⟩ =
      some (.issueChallenge "alice") := ⟨rfl,rfl⟩

theorem saidBy_members (request : Request) : request.SaidBy (.object request.members) := by
  cases request with
  | enrollBegin userId => exact fields_eq_some.mp (@fields_zip ["user_id"] (by decide) [.string userId] rfl)
  | enrollComplete req =>
    exact fields_eq_some.mp (@fields_zip ["user_id","ciphertext","dilithium_public_key"] (by decide)
      [.string req.userId,.string req.ciphertext,.string req.dilithiumPublicKey] rfl)
  | issueChallenge userId => exact fields_eq_some.mp (@fields_zip ["user_id"] (by decide) [.string userId] rfl)
  | verify req =>
    obtain ⟨userId,method⟩ := req
    cases method with
    | totp code => exact ⟨_,rfl,buffered_iff.mpr rfl,rfl,rfl⟩
    | challenge nonce clientTimestamp signature =>
      have hnone : member "totp_code" (Request.verify ⟨userId,.challenge nonce clientTimestamp signature⟩).members =
          none := rfl
      exact ⟨_,rfl,buffered_iff.mpr rfl,rfl,fun code hcode => (by cases hnone.symm.trans hcode),rfl,rfl,rfl⟩

/-- Rearranging a document and adding to it does not change what it says, if a
verification can keep what was added. -/
theorem saidBy_extends {request : Request} {ms : Members} (h : Extends request.known request.members ms)
    (hkept : request.route = .verify → Buffered ms) : request.SaidBy (.object ms) := by
  have hsaid := saidBy_members request
  cases request with
  | enrollBegin userId =>
    exact fields_eq_some.mp ((h.fields_eq (List.Subset.refl _)).trans (fields_eq_some.mpr hsaid))
  | enrollComplete req =>
    exact fields_eq_some.mp ((h.fields_eq (List.Subset.refl _)).trans (fields_eq_some.mpr hsaid))
  | issueChallenge userId =>
    exact fields_eq_some.mp ((h.fields_eq (List.Subset.refl _)).trans (fields_eq_some.mpr hsaid))
  | verify req =>
    obtain ⟨userId,method⟩ := req
    obtain ⟨members,hobject,_,huser,hmethod⟩ := hsaid
    obtain rfl := Json.object.inj hobject
    cases method with
    | totp code =>
      exact ⟨ms,rfl,hkept rfl,(h.member_eq (by simp [Request.known])).trans huser,
        (h.member_eq (by simp [Request.known])).trans hmethod⟩
    | challenge nonce clientTimestamp signature =>
      obtain ⟨hcode,hnonce,htime,hsig⟩ := hmethod
      refine ⟨ms,rfl,hkept rfl,(h.member_eq (by simp [Request.known])).trans huser,?_,
        (h.member_eq (by simp [Request.known])).trans hnonce,(h.member_eq (by simp [Request.known])).trans htime,
        (h.member_eq (by simp [Request.known])).trans hsig⟩
      intro code
      rw [h.member_eq (by simp [Request.known])]
      exact hcode code

variable {crates : Crates}

/-- Posting a request, in any layout, is calling the server with it. Only a verification
has to keep what it does not know. -/
theorem posted_step {request : Request} {ms : Members} (h : Extends request.known request.members ms)
    (hkept : request.route = .verify → Buffered ms) (s : ServerInner) (env : Env) :
    step crates s ⟨env,⟨"POST",request.route.path,some (.object ms)⟩⟩ =
      (respond (PqAuthServer.step crates s ⟨env,request⟩).1,(PqAuthServer.step crates s ⟨env,request⟩).2) := by
  have hdecode : decode ⟨"POST",request.route.path,some (.object ms)⟩ = some request := by
    have hroute : route ⟨"POST",request.route.path,some (.object ms)⟩ = some request.route :=
      route_iff.mpr ⟨rfl,rfl⟩
    rw [decode, hroute]
    exact extract_iff.mpr ⟨rfl,saidBy_extends h hkept⟩
  rw [step, received, hdecode]
  rfl

/-- A code after a member of no meaning, and before the user. -/
theorem posted_step_rearranged : step Transparent.crates (PqAuthServer.new "example.org")
      ⟨⟨1000,1000,1000,[],⟨List.replicate 32 0,List.length_replicate⟩⟩,⟨"POST","/verify",some (.object
        [("nonce",.null),("totp_code",ofNat 12345678),("user_id",.string "alice")])⟩⟩ =
    (respond (.error (.userNotFound "alice")),PqAuthServer.new "example.org") := by
  have h : Extends (Request.verify ⟨"alice",.totp 12345678⟩).known (Request.verify ⟨"alice",.totp 12345678⟩).members
      [("nonce",.null),("totp_code",ofNat 12345678),("user_id",.string "alice")] :=
    (Extends.of_perm _ (List.Perm.swap ..)).cons (by simp [Request.known]) .null
  exact posted_step h (fun _ => buffered_iff.mpr rfl) (PqAuthServer.new "example.org")
    ⟨1000,1000,1000,[],⟨List.replicate 32 0,List.length_replicate⟩⟩

theorem toJson_injective : Function.Injective Response.toJson := by
  intro a b h
  rcases a with ⟨⟨_,_⟩⟩ | ⟨⟨_,_⟩⟩ | ⟨⟨_,_⟩⟩ | ⟨⟨_,_⟩⟩ <;> rcases b with ⟨⟨_,_⟩⟩ | ⟨⟨_,_⟩⟩ | ⟨⟨_,_⟩⟩ | ⟨⟨_,_⟩⟩ <;>
    simp_all [Response.toJson, EnrollBeginResponse.toJson, EnrollCompleteResponse.toJson, ChallengeIssued.toJson,
      VerifyResponse.toJson, ofNat, UInt64.toNat_inj]

/-- The HTTP reply is as good as the server's: it tells which response or which
error, with every field and every quoted name or number. -/
theorem respond_injective : Function.Injective respond := by
  intro a b h
  match a, b, h with
  | .ok _, .ok _, h => exact congrArg _ (toJson_injective (HttpReply.json.inj h).2)
  | .error _, .error _, h =>
    have htext : [("error",Json.string _)] = [("error",Json.string _)] := Json.object.inj (HttpReply.json.inj h).2
    simp only [List.cons.injEq, Prod.mk.injEq, Json.string.injEq, true_and, and_true] at htext
    exact congrArg _ (ServerError.toString_injective htext)
  | .ok _, .error _, h => cases h
  | .error _, .ok _, h => cases h

/-- A run of the service is a run of the server on the requests it received, and
clients get the server's replies. The others were refused and changed nothing. -/
theorem service_runs (crates : Crates) (serverId : String) (calls : List HttpCall) :
    final crates serverId calls = PqAuthServer.final crates serverId (calls.filterMap received) ∧
    ((history crates serverId calls).filter (fun e => (received e.input).isSome)).map Machine.Event.output =
      (PqAuthServer.history crates serverId (calls.filterMap received)).map (fun e => respond e.output) ∧
    ∀ e ∈ history crates serverId calls, received e.input = none → e.output = .refused ∧ e.after = e.before := by
  have hpass (s : ServerInner) (c : HttpCall) (call : Call) (hc : received c = some call) : step crates s c =
      (respond (PqAuthServer.step crates s call).1,(PqAuthServer.step crates s call).2) := by
    rw [step, hc]
  have hskip (s : ServerInner) (c : HttpCall) (hc : received c = none) : step crates s c = (.refused,s) := by
    rw [step, hc]
  obtain ⟨houtputs,hfinal⟩ := Machine.history_filterMap hpass (fun s c hc => by rw [hskip s c hc])
    (PqAuthServer.new serverId) calls
  refine ⟨hfinal,houtputs,?_⟩
  intro e he hc
  obtain ⟨k,hk⟩ := List.mem_iff_getElem?.mp he
  have hstep := (Machine.step_at hk).symm.trans (hskip e.before e.input hc)
  exact Prod.mk.inj hstep

end RunServer
end PqAuth
