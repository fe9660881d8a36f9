import Yedis.ContainerSpec
import Yedis.HandlerSpec

/-!
# The command table

The commands that `YedisRegisterCmd::init` registers, and `execCommand`, which looks
the first parameter up and runs the handler. Names are matched byte for byte.
-/

namespace Yedis

inductive Command
  | COMMAND
  | set
  | get
  | setnx
  | LPUSH
  | RPUSH
  | LPUSHX
  | RPUSHX
  | LPOP
  | RPOP
  | LLEN
  | LRANGE
  | SADD
  | SCARD
  | SMEMBERS
  | SPOP
  | HGET
  | HSET
  | ZADD
  deriving DecidableEq, Repr

namespace Command

def name : Command → Bytes
  | COMMAND => ascii "COMMAND"
  | set => ascii "set"
  | get => ascii "get"
  | setnx => ascii "setnx"
  | LPUSH => ascii "LPUSH"
  | RPUSH => ascii "RPUSH"
  | LPUSHX => ascii "LPUSHX"
  | RPUSHX => ascii "RPUSHX"
  | LPOP => ascii "LPOP"
  | RPOP => ascii "RPOP"
  | LLEN => ascii "LLEN"
  | LRANGE => ascii "LRANGE"
  | SADD => ascii "SADD"
  | SCARD => ascii "SCARD"
  | SMEMBERS => ascii "SMEMBERS"
  | SPOP => ascii "SPOP"
  | HGET => ascii "HGET"
  | HSET => ascii "HSET"
  | ZADD => ascii "ZADD"

def registered : List Command :=
  [COMMAND, set, get, setnx, LPUSH, RPUSH, LPUSHX, RPUSHX, LPOP, RPOP, LLEN, LRANGE, SADD, SCARD,
    SMEMBERS, SPOP, HGET, HSET, ZADD]

/-- `YedisRegisterCmd::command`. -/
def command (params : List Bytes) : Exec YError := do
  if (← param params 0) = ascii "COMMAND" then
    pushData (ascii "+OK\r\n")
  return .ok

def handler (env : Env) : Command → List Bytes → Exec YError
  | COMMAND => command
  | set => YString.setCmd
  | get => YString.getCmd
  | setnx => YString.setnxCmd
  | LPUSH => YList.lpush
  | RPUSH => YList.rpush
  | LPUSHX => YList.lpushx
  | RPUSHX => YList.rpushx
  | LPOP => YList.lpop
  | RPOP => YList.rpop
  | LLEN => YList.llen
  | LRANGE => YList.lrange
  | SADD => YSet.sadd
  | SCARD => YSet.scard
  | SMEMBERS => YSet.smember env
  | SPOP => YSet.spop env
  | HGET => YHash.hget
  | HSET => YHash.hset
  | ZADD => YSortedSet.zadd env

end Command

def getCommand (cmd : Bytes) : Option Command := Command.registered.find? fun c => c.name = cmd

def execCommand (env : Env) (params : List Bytes) : Exec Bool := do
  match getCommand (← param params 0) with
  | none =>
    pushData unknownCommand
    return false
  | some temp =>
    let _ ← temp.handler env params
    return true

theorem getCommand_name (c : Command) : getCommand c.name = some c := by
  cases c <;> decide

theorem name_of_getCommand {cmd : Bytes} {c : Command} (h : getCommand cmd = some c) :
    c.name = cmd := by
  simpa using List.find?_some h

section Exec
variable {env : Env} {params : List Bytes} {w : World} {cmd : Bytes}

theorem execCommand_empty (h : params[0]? = none) :
    execCommand env params w = .error .paramIndex w := by
  simp [execCommand, param_none _ h]

theorem execCommand_unknown (h : params[0]? = some cmd) (hcmd : getCommand cmd = none) :
    execCommand env params w = .ok false ⟨w.store, w.reply ++ unknownCommand⟩ := by
  simp [execCommand, param_run _ h, hcmd]

theorem execCommand_run {c : Command} (h : params[0]? = some cmd) (hcmd : getCommand cmd = some c) :
    execCommand env params w =
      match c.handler env params w with
      | .ok _ w' => .ok true w'
      | .error f w' => .error f w' := by
  simp only [execCommand, exec_bind, param_run _ h, hcmd]
  cases c.handler env params w <;> rfl

theorem execCommand_ok {c : Command} {e : YError} {w' : World} (h : params[0]? = some c.name)
    (hrun : c.handler env params w = .ok e w') : execCommand env params w = .ok true w' := by
  rw [execCommand_run h (getCommand_name c), hrun]

theorem command_run (h : params[0]? = some (ascii "COMMAND")) :
    Command.command params w = .ok .ok ⟨w.store, w.reply ++ ascii "+OK\r\n"⟩ := by
  simp [Command.command, param_run _ h]

end Exec

end Yedis
