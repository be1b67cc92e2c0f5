import LocalHttp.Cooling.Endpoints

namespace LocalHttp.Bench

open Cooling (SharedCooler)

def description (r : Request) : String :=
  let lines := ["M " ++ r.method, "R " ++ r.resource, "T " ++ r.target] ++
    r.args.fields.map (fun f ↦ "A " ++ f.name ++ "=" ++ f.value) ++
    r.headers.fields.map (fun f ↦ "H " ++ f.name ++ ": " ++ f.value) ++
    ["C " ++ r.contentType, "B " ++ Nat.repr r.body.length]
  String.join (lines.map (· ++ "\n"))

def describe : Handler SharedCooler := fun r s ↦
  (.response (.plainText .ok (description r)), s)

/-- Sends the body back, and the rest of the request in headers. -/
def echo : Handler SharedCooler := fun r s ↦
  let headers : Headers := FieldTable.empty
    |>.add "X-Echo-Host" ((r.headers.value? "Host").getD "")
    |>.add "X-Echo-Method" r.method
  let headers := if r.args.isEmpty then headers
    else headers.add "X-Echo-Args" (Target.queryText r.args)
  let draft : Response.Draft :=
    { status := .ok, headers := headers, body := r.body, contentType := r.contentType }
  (.response draft.toResponse, s)

def always (outcome : Outcome) : Handler SharedCooler := fun _ s ↦ (outcome, s)

def poison : Handler SharedCooler := fun _ s ↦
  (.panic (some "poisoned it"), { s with poisoned := true })

end LocalHttp.Bench
