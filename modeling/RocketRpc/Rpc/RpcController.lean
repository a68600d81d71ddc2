import RocketRpc.Coder.TinyPBProtocol

/-
  The controller of a call (`rocket/net/rpc/rpc_controller.cc`) and the error codes a call
  can end with (`rocket/common/ecode.h`).

  The controller and the response belong to the caller. What a callback does to them is a
  list of writes of single fields, so that another thread can be scheduled between any two.
-/

namespace RocketRpc.Rpc

open RocketRpc.Tcp

namespace error

def kFailedDeserialize : Int32 := 10000003
def kFailedSerialize : Int32 := 10000004
def kRpcCallTimeout : Int32 := 10000007
def kServiceNotFound : Int32 := 10000008
def kMethodNotFound : Int32 := 10000009
def kParseServiceName : Int32 := 10000010
def kRpcChannelInit : Int32 := 10000011
def kRpcPeerAddr : Int32 := 10000012
def kRpcPoolExhausted : Int32 := 10000014
def kRpcShutdown : Int32 := 10000015
def kRpcServerOverloaded : Int32 := 10000016

end error

/-- The bytes of a text of the sources. -/
def text (s : String) : Bytes := s.toUTF8.toList

def kDefaultTimeoutMs : Int := 1000

structure RpcController where
  errorCode : Int32 := 0
  errorInfo : Bytes := []
  msgId : Bytes := []
  isFailed : Bool := false
  isCancled : Bool := false
  isFinished : Bool := false
  timeout : Int := kDefaultTimeoutMs
  deriving DecidableEq, Repr

/-- One write to an object of the caller. -/
inductive Write (Message : Type) where
  | errorCode (value : Int32)
  | errorInfo (value : Bytes)
  | isFailed (value : Bool)
  | isCancled (value : Bool)
  | isFinished (value : Bool)
  | response (value : Message)
  deriving DecidableEq, Repr

variable {Message : Type}

def setError (errorCode : Int32) (errorInfo : Bytes) : List (Write Message) :=
  [.errorCode errorCode, .errorInfo errorInfo, .isFailed true]

def startCancel : List (Write Message) := [.isCancled true, .isFailed true, .isFinished true]

/-- The objects of the caller that a finisher writes: the controller's outcome, and the
    response. -/
structure Owned (Message : Type) where
  errorCode : Int32
  errorInfo : Bytes
  isFailed : Bool
  isCancled : Bool
  isFinished : Bool
  response : Message

def Owned.write (o : Owned Message) : Write Message → Owned Message
  | .errorCode value => { o with errorCode := value }
  | .errorInfo value => { o with errorInfo := value }
  | .isFailed value => { o with isFailed := value }
  | .isCancled value => { o with isCancled := value }
  | .isFinished value => { o with isFinished := value }
  | .response value => { o with response := value }

end RocketRpc.Rpc
