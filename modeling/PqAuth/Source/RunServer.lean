import PqAuth.Source.Wire

/-! `run_server` in `main.rs`: the server behind HTTP. -/
namespace PqAuth

inductive Route where
  | enrollBegin
  | enrollComplete
  | challenge
  | verify
  deriving DecidableEq, Repr

def Route.path : Route → String
  | .enrollBegin => "/enroll/begin"
  | .enrollComplete => "/enroll/complete"
  | .challenge => "/challenge"
  | .verify => "/verify"

/-- A request as the router gets it; `none` for a body that the framework does not take as a JSON document. -/
structure HttpRequest where
  method : String
  path : String
  body : Option Json

/-- A reply; `refused` is the framework's own, with no handler run. -/
inductive HttpReply where
  | refused
  | json (status : ℕ) (body : Json)

namespace RunServer

def router : List Route := [.enrollBegin,.enrollComplete,.challenge,.verify]

def route (r : HttpRequest) : Option Route :=
  if r.method == "POST" then router.find? (fun route => route.path == r.path) else none

/-- The argument of a route's handler. -/
def extract : Route → Json → Option Request
  | .enrollBegin, j => (EnrollBeginRequest.fromJson j).map (fun req => .enrollBegin req.userId)
  | .enrollComplete, j => (EnrollCompleteRequest.fromJson j).map .enrollComplete
  | .challenge, j => (ChallengeRequest.fromJson j).map (fun req => .issueChallenge req.userId)
  | .verify, j => (VerifyRequest.fromJson j).map .verify

def decode (r : HttpRequest) : Option Request := do
  extract (← route r) (← r.body)

/-- A handler's reply: 200 with the response, or 400 with the text of the error. -/
def respond : Reply → HttpReply
  | .ok resp => .json 200 resp.toJson
  | .error e => .json 400 (.object [("error",.string e.toString)])

end RunServer

/-- A request to the service, with the environment its handler would run in. -/
structure HttpCall where
  env : Env
  http : HttpRequest

namespace RunServer
variable (crates : Crates)

def received (c : HttpCall) : Option Call := (decode c.http).map (Call.mk c.env)

def step (inner : ServerInner) (c : HttpCall) : HttpReply × ServerInner :=
  match received c with
  | none => (.refused,inner)
  | some call =>
    let (reply,inner) := PqAuthServer.step crates inner call
    (respond reply,inner)

/-- All events of a run from a fresh server. -/
def history (serverId : String) (calls : List HttpCall) : List (Machine.Event ServerInner HttpCall HttpReply) :=
  Machine.history (step crates) (PqAuthServer.new serverId) calls

def final (serverId : String) (calls : List HttpCall) : ServerInner :=
  Machine.final (step crates) (PqAuthServer.new serverId) calls

end RunServer
end PqAuth
