import NodeShader.Number.Literal

/-!
# Addresses to listen on

`host:port`, where the host may be empty or stand between brackets.
-/

namespace NodeShader.Command

/-- What is wrong with an address. -/
inductive AddressError where
  | malformed (address problem : String)
  | unknownPort (name : String)
  deriving DecidableEq, Repr

def AddressError.message : AddressError → String
  | .malformed "" problem => "listen tcp: " ++ problem
  | .malformed address problem => "listen tcp: address " ++ address ++ ": " ++ problem
  | .unknownPort name => "listen tcp: lookup tcp/" ++ name ++ ": unknown port"

/-- Ports that are known by name. -/
def knownPorts : List String :=
  ["domain", "ftp", "ftps", "gopher", "http", "https", "imap2", "imap3", "imaps", "pop3", "pop3s",
    "smtp", "submissions", "ssh", "telnet"]

/-- The port of an address, which follows its last colon. -/
def addressPort (address : String) : Except AddressError String :=
  let cs := address.toList
  let port := (cs.reverse.takeWhile (· ≠ ':')).reverse
  let wrong {α : Type} (problem : String) : Except AddressError α := .error (.malformed address problem)
  if !cs.contains ':' then wrong "missing port in address"
  else
    let host := cs.take (cs.length - port.length - 1)
    if cs.head? = some '[' then
      let name := cs.tail.takeWhile (· ≠ ']')
      let after := cs.drop (name.length + 2)
      if !cs.contains ']' then wrong "missing ']' in address"
      else if after.isEmpty then wrong "missing port in address"
      else if after.length ≠ port.length + 1 then
        wrong (if after.head? = some ':' then "too many colons in address" else "missing port in address")
      else if (cs.drop 1).contains '[' then wrong "unexpected '[' in address"
      else if after.contains ']' then wrong "unexpected ']' in address"
      else .ok (String.ofList port)
    else if host.contains ':' then wrong "too many colons in address"
    else if cs.contains '[' then wrong "unexpected '[' in address"
    else if cs.contains ']' then wrong "unexpected ']' in address"
    else .ok (String.ofList port)

/-- Can one listen on an address? -/
def checkAddress (address : String) : Except AddressError Unit := do
  let port ← addressPort address
  let (negative, digits) := Number.takeSign port.toList
  if !digits.all Number.isDigit then
    if knownPorts.contains port.toLower then return () else throw (.unknownPort port)
  else
    match Number.digitsValue? 10 digits 0 with
    | some n =>
      if 65535 < n || (negative && 0 < n) then throw (.malformed port "invalid port") else return ()
    | none => throw (.unknownPort port)

end NodeShader.Command
