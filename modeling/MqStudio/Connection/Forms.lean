import MqStudio.Connection.Validation

/-!
# The Connection Forms

`connectionDraft.ts` and the drafts of `ConnectionForms.tsx`: for each family, the fields its form
collects, what it submits of them, and how a stored profile is read back into them.

A submission carries every option of its family and a blank where a setting is not meant to apply,
and a mode that says what becomes of the secrets it left blank. Stored secrets never come back: a
form is only told whether there are any.

The renderer's numbers are a parameter, with how it reads one and how it writes one.

## Main definitions

- `toSubmission`, `toDraft`.
-/

namespace MqStudio.Connection.Forms

open MqStudio.Lib
open MqStudio.Lib.TreeMap
open MqStudio.Model

/-! ## The renderer's language -/

/-- White space and line terminators. -/
def isWhiteSpace (c : Char) : Bool :=
  c = ' ' || c = '\t' || c = '\n' || c = '\r' || c.val = 0x0B || c.val = 0x0C ||
    c.val = 0xA0 || c.val = 0x1680 || (0x2000 ≤ c.val && c.val ≤ 0x200A) || c.val = 0x2028 ||
    c.val = 0x2029 || c.val = 0x202F || c.val = 0x205F || c.val = 0x3000 || c.val = 0xFEFF

/-- `trim` -/
def trim (s : String) : String := String.ofList (Words.trim isWhiteSpace s.toList)

/-- `String`, of a boolean. -/
def flag (b : Bool) : String := if b then "true" else "false"

/-- `||`: a blank text is as good as none. -/
def orElse (value : Option String) (fallback : String) : String :=
  match value with
  | none => fallback
  | some text => if text = "" then fallback else text

/-- The renderer's numbers: `Number.parseInt` in base ten, without its NaN, and `String`. -/
structure Numbers (ν : Type) where
  parseInt : String → Option ν
  text : ν → String
  ofInt : Int → ν
  negative : ν → Bool

/-- `numberOption` -/
def numberOption {ν : Type} (js : Numbers ν) (raw : Option String) (fallback : Int) : ν :=
  (js.parseInt (raw.getD "")).getD (js.ofInt fallback)

/-- An object, by its properties. -/
def record : List (String × String) → StringMap
  | [] => ∅
  | (key, value) :: rest => (record rest).insert key value

/-! ## What goes to and fro -/

/-- `CredentialsMode`; a caller may send other texts. -/
inductive CredentialsMode where
  | preserve | clear | replace
  | blank
  | other
  deriving DecidableEq

/-- `ConnectionDraft` of the renderer's API. -/
structure ConnectionDraft where
  name : String
  group : String
  kind : MQKind
  endpoints : String
  timeoutSec : Int
  authMechanism : AuthMechanism
  options : StringMap
  secrets : StringMap
  remark : String
  deriving DecidableEq

/-- `Submission` -/
structure Submission where
  draft : ConnectionDraft
  credentialsMode : CredentialsMode
  deriving DecidableEq

/-- `ConnectionView`, as far as the forms read it. -/
structure ConnectionView where
  name : String
  group : String
  kind : MQKind
  endpoints : String
  timeoutSec : Int
  authMechanism : AuthMechanism
  options : Option StringMap
  secretsConfigured : List String
  remark : String
  deriving DecidableEq

/-- `profile.options?.[key]` -/
def ConnectionView.option (profile : ConnectionView) (key : String) : Option String :=
  (profile.options.getD ∅)[key]?

/-- `profile.secretsConfigured.length > 0` -/
def ConnectionView.stored (profile : ConnectionView) : Bool := 0 < profile.secretsConfigured.length

/-! ## What the forms have in common -/

/-- The fields every form has, drawn or not. -/
structure FormDraft where
  name : String
  group : String
  remark : String
  timeoutSec : Int

/-- Those of a form with credentials. -/
structure SecretDraft extends FormDraft where
  credentialsStored : Bool
  clearCredentials : Bool

/-- A submission, with what it takes of every form as it is. -/
def FormDraft.submission (draft : FormDraft) (kind : MQKind) (endpoints : String)
    (authMechanism : AuthMechanism) (options secrets : List (String × String))
    (credentialsMode : CredentialsMode) : Submission where
  draft :=
    { name := trim draft.name
      group := draft.group
      kind := kind
      endpoints := endpoints
      timeoutSec := draft.timeoutSec
      authMechanism := authMechanism
      options := record options
      secrets := record secrets
      remark := draft.remark }
  credentialsMode := credentialsMode

/-- `keepStored` -/
def SecretDraft.keepStored (draft : SecretDraft) : Bool :=
  draft.credentialsStored && !draft.clearCredentials

/-- The mode that fills blanks wherever anything is stored. -/
def SecretDraft.preserving (draft : SecretDraft) : CredentialsMode :=
  if draft.clearCredentials then .clear else if draft.keepStored then .preserve else .replace

/-- The mode that replaces as soon as something is typed. -/
def SecretDraft.replacing (draft : SecretDraft) (typed : Bool) : CredentialsMode :=
  if draft.clearCredentials then .clear
  else if typed || !draft.keepStored then .replace
  else .preserve

/-- The same where authenticating as nobody is a choice of its own. -/
def SecretDraft.replacingOrAnonymous (draft : SecretDraft) (authenticating typed : Bool) :
    CredentialsMode :=
  if !authenticating then .clear else draft.replacing typed

/-- What every form reads of a profile as it is. -/
def FormDraft.read (profile : ConnectionView) : FormDraft where
  name := profile.name
  group := profile.group
  remark := profile.remark
  timeoutSec := profile.timeoutSec

/-- With whether it says that credentials are stored. -/
def SecretDraft.read (profile : ConnectionView) (credentialsStored : Bool) : SecretDraft where
  toFormDraft := FormDraft.read profile
  credentialsStored := credentialsStored
  clearCredentials := false

/-- `MqttMechanism`, `ActiveMQMechanism`, `IbmMqMechanism` and `SolaceMechanism` -/
inductive PlainMechanism where
  | none | plain
  deriving DecidableEq

/-- What such a mechanism is stored as. -/
def PlainMechanism.stored : PlainMechanism → AuthMechanism
  | .none => .none
  | .plain => .plain

/-- ActiveMQ, IBM MQ and Solace read every mechanism but none as plain. -/
def PlainMechanism.unlessNone (mechanism : AuthMechanism) : PlainMechanism :=
  if mechanism = .none then .none else .plain

/-- A secret of a credential that may not be the one in use. -/
def typedWhen (used : Bool) (text : String) : String := if used then trim text else ""

/-! ## RocketMQ -/

/-- `RocketMQDraft`'s `version` -/
inductive RocketMQVersion where
  | v4 | v5
  deriving DecidableEq

def RocketMQVersion.text : RocketMQVersion → String
  | .v4 => "4.x"
  | .v5 => "5.x"

/-- `RocketMQDraft`'s `access` -/
inductive RocketMQAccess where
  | ns | proxy
  deriving DecidableEq

def RocketMQAccess.text : RocketMQAccess → String
  | .ns => "ns"
  | .proxy => "proxy"

/-- `RocketMQDraft` -/
structure RocketMQDraft extends SecretDraft where
  version : RocketMQVersion
  access : RocketMQAccess
  endpoints : String
  accessKey : String
  secretKey : String
  «namespace» : String

/-- `rocketMQSubmission` -/
def rocketMQSubmission (draft : RocketMQDraft) : Submission :=
  let accessKey := trim draft.accessKey
  let secretKey := trim draft.secretKey
  let typed := accessKey ≠ "" || secretKey ≠ ""
  draft.submission .rocketmq (trim draft.endpoints)
    (if typed || draft.keepStored then .acl else .none)
    [("version", draft.version.text), ("access", draft.access.text),
      ("namespace", trim draft.namespace)]
    [("accessKey", accessKey), ("secretKey", secretKey)] draft.preserving

/-- `toRocketMQDraft` -/
def toRocketMQDraft (profile : ConnectionView) : RocketMQDraft where
  toSecretDraft := .read profile profile.stored
  version := if profile.option "version" = some "4.x" then .v4 else .v5
  access := if profile.option "access" = some "proxy" then .proxy else .ns
  endpoints := profile.endpoints
  accessKey := ""
  secretKey := ""
  «namespace» := (profile.option "namespace").getD ""

/-! ## RabbitMQ -/

/-- `RabbitMQDraft` -/
structure RabbitMQDraft extends SecretDraft where
  management : String
  amqp : String
  vhost : String
  username : String
  password : String
  tls : Bool
  tlsSkipVerify : Bool

/-- `rabbitMQSubmission` -/
def rabbitMQSubmission (draft : RabbitMQDraft) : Submission :=
  let username := trim draft.username
  let password := trim draft.password
  let typed := username ≠ "" || password ≠ ""
  draft.submission .rabbitmq (trim draft.management) .plain
    [("vhost", if trim draft.vhost = "" then "/" else trim draft.vhost),
      ("amqpEndpoint", trim draft.amqp), ("tls", flag draft.tls),
      ("tlsSkipVerify", flag (draft.tls && draft.tlsSkipVerify))]
    [("username", username), ("password", password)] (draft.replacing typed)

/-- `toRabbitMQDraft` -/
def toRabbitMQDraft (profile : ConnectionView) : RabbitMQDraft :=
  let tls := profile.option "tls" = some "true"
  { toSecretDraft := .read profile profile.stored
    management := profile.endpoints
    amqp := (profile.option "amqpEndpoint").getD ""
    vhost := (profile.option "vhost").getD "/"
    username := ""
    password := ""
    tls := tls
    tlsSkipVerify := tls && profile.option "tlsSkipVerify" = some "true" }

/-! ## Kafka -/

/-- `KafkaMechanism` -/
inductive KafkaMechanism where
  | none | saslPlain | saslScram
  deriving DecidableEq

/-- `MECHANISM` -/
def KafkaMechanism.stored : KafkaMechanism → AuthMechanism
  | .none => .none
  | .saslPlain => .saslPlain
  | .saslScram => .saslScram

/-- `KAFKA_MECHANISM_BY_STORED`, and none for any other. -/
def KafkaMechanism.byStored : AuthMechanism → KafkaMechanism
  | .saslPlain => .saslPlain
  | .saslScram => .saslScram
  | _ => .none

/-- `KafkaScramSha` -/
inductive KafkaScramSha where
  | sha256 | sha512
  deriving DecidableEq

def KafkaScramSha.text : KafkaScramSha → String
  | .sha256 => "256"
  | .sha512 => "512"

/-- `KafkaDraft` -/
structure KafkaDraft extends SecretDraft where
  endpoints : String
  mechanism : KafkaMechanism
  scramSha : KafkaScramSha
  username : String
  password : String
  tls : Bool
  tlsCaFile : String
  tlsSkipVerify : Bool

/-- `kafkaSubmission` -/
def kafkaSubmission (draft : KafkaDraft) : Submission :=
  let authenticating := draft.mechanism ≠ .none
  let username := typedWhen authenticating draft.username
  let password := typedWhen authenticating draft.password
  let typed := username ≠ "" || password ≠ ""
  draft.submission .kafka (trim draft.endpoints) draft.mechanism.stored
    [("scramSha", draft.scramSha.text), ("tls", flag draft.tls),
      ("tlsCaFile", if draft.tls then trim draft.tlsCaFile else ""),
      ("tlsSkipVerify", flag (draft.tls && draft.tlsSkipVerify))]
    [("username", username), ("password", password)]
    (draft.replacingOrAnonymous authenticating typed)

/-- `toKafkaDraft` -/
def toKafkaDraft (profile : ConnectionView) : KafkaDraft :=
  let tls := profile.option "tls" = some "true"
  let mechanism := KafkaMechanism.byStored profile.authMechanism
  { toSecretDraft := .read profile (mechanism ≠ .none && profile.stored)
    endpoints := profile.endpoints
    mechanism := mechanism
    scramSha := if profile.option "scramSha" = some "256" then .sha256 else .sha512
    username := ""
    password := ""
    tls := tls
    tlsCaFile := if tls then (profile.option "tlsCaFile").getD "" else ""
    tlsSkipVerify := tls && profile.option "tlsSkipVerify" = some "true" }

/-! ## Redis Streams -/

/-- `RedisDeployment` -/
inductive RedisDeployment where
  | standalone | sentinel | cluster
  deriving DecidableEq

def RedisDeployment.text : RedisDeployment → String
  | .standalone => "standalone"
  | .sentinel => "sentinel"
  | .cluster => "cluster"

/-- One of `REDIS_DEPLOYMENTS`, and a standalone server for anything else. -/
def RedisDeployment.read (text : Option String) : RedisDeployment :=
  if text = some "sentinel" then .sentinel
  else if text = some "cluster" then .cluster
  else .standalone

/-- `RedisDraft` -/
structure RedisDraft (ν : Type) extends SecretDraft where
  deployment : RedisDeployment
  endpoints : String
  masterName : String
  db : ν
  streamFilter : String
  username : String
  password : String
  tls : Bool
  tlsSkipVerify : Bool

/-- `redisSubmission` -/
def redisSubmission {ν : Type} (js : Numbers ν) (draft : RedisDraft ν) : Submission :=
  let username := trim draft.username
  let password := trim draft.password
  let typed := username ≠ "" || password ≠ ""
  draft.submission .redisStream (trim draft.endpoints)
    (if typed || draft.keepStored then .plain else .none)
    [("deployment", draft.deployment.text),
      ("masterName", if draft.deployment = .sentinel then trim draft.masterName else ""),
      ("db", if draft.deployment = .cluster then "0" else js.text draft.db),
      ("streamFilter", trim draft.streamFilter), ("tls", flag draft.tls),
      ("tlsSkipVerify", flag (draft.tls && draft.tlsSkipVerify))]
    [("username", username), ("password", password)] (draft.replacing typed)

/-- The database a profile is read to use. -/
def redisDB {ν : Type} (js : Numbers ν) (deployment : RedisDeployment) (raw : Option String) : ν :=
  match js.parseInt (raw.getD "0") with
  | none => js.ofInt 0
  | some db => if deployment = .cluster || js.negative db then js.ofInt 0 else db

/-- `toRedisDraft` -/
def toRedisDraft {ν : Type} (js : Numbers ν) (profile : ConnectionView) : RedisDraft ν :=
  let deployment := RedisDeployment.read (profile.option "deployment")
  let tls := profile.option "tls" = some "true"
  { toSecretDraft := .read profile profile.stored
    deployment := deployment
    endpoints := profile.endpoints
    masterName := if deployment = .sentinel then (profile.option "masterName").getD "" else ""
    db := redisDB js deployment (profile.option "db")
    streamFilter := (profile.option "streamFilter").getD ""
    username := ""
    password := ""
    tls := tls
    tlsSkipVerify := tls && profile.option "tlsSkipVerify" = some "true" }

/-! ## MQTT -/

/-- `MqttProtocol` -/
inductive MqttProtocol where
  | v5 | v311
  deriving DecidableEq

def MqttProtocol.text : MqttProtocol → String
  | .v5 => "5"
  | .v311 => "311"

/-- `MqttTransport` -/
inductive MqttTransport where
  | tcp | tls | ws | wss
  deriving DecidableEq

namespace MqttTransport

def text : MqttTransport → String
  | .tcp => "tcp"
  | .tls => "tls"
  | .ws => "ws"
  | .wss => "wss"

/-- One of `MQTT_TRANSPORTS`, and plain TCP for anything else. -/
def read (text : Option String) : MqttTransport :=
  if text = some "tls" then .tls
  else if text = some "ws" then .ws
  else if text = some "wss" then .wss
  else .tcp

/-- `encrypted` -/
def encrypted (transport : MqttTransport) : Bool := transport = .tls || transport = .wss

/-- `webSocket` -/
def webSocket (transport : MqttTransport) : Bool := transport = .ws || transport = .wss

end MqttTransport

/-- `MqttDraft` -/
structure MqttDraft (ν : Type) extends SecretDraft where
  endpoints : String
  protocol : MqttProtocol
  transport : MqttTransport
  wsPath : String
  clientId : String
  keepAliveSec : ν
  cleanStart : Bool
  sessionExpirySec : ν
  mechanism : PlainMechanism
  username : String
  password : String
  tlsCaFile : String
  tlsSkipVerify : Bool
  managementUrl : String
  managementKey : String
  managementSecret : String

/-- `mqttSubmission` -/
def mqttSubmission {ν : Type} (js : Numbers ν) (draft : MqttDraft ν) : Submission :=
  let authenticating := draft.mechanism ≠ .none
  let managementUrl := trim draft.managementUrl
  let encrypted := draft.transport.encrypted
  draft.submission .mqtt (trim draft.endpoints) (if authenticating then .plain else .none)
    [("protocolVersion", draft.protocol.text), ("transport", draft.transport.text),
      ("wsPath", if draft.transport.webSocket then trim draft.wsPath else ""),
      ("clientId", trim draft.clientId), ("keepAliveSec", js.text draft.keepAliveSec),
      ("cleanStart", flag draft.cleanStart),
      ("sessionExpirySec",
        if draft.protocol = .v5 then js.text draft.sessionExpirySec else "0"),
      ("tlsCaFile", if encrypted then trim draft.tlsCaFile else ""),
      ("tlsSkipVerify", flag (encrypted && draft.tlsSkipVerify)),
      ("managementUrl", managementUrl)]
    [("username", typedWhen authenticating draft.username),
      ("password", typedWhen authenticating draft.password),
      ("managementApiKey", typedWhen (managementUrl ≠ "") draft.managementKey),
      ("managementSecretKey", typedWhen (managementUrl ≠ "") draft.managementSecret)]
    draft.preserving

/-- `toMqttDraft` -/
def toMqttDraft {ν : Type} (js : Numbers ν) (profile : ConnectionView) : MqttDraft ν :=
  let transport := MqttTransport.read (profile.option "transport")
  let encrypted := transport.encrypted
  let protocol : MqttProtocol :=
    if profile.option "protocolVersion" = some "311" then .v311 else .v5
  { toSecretDraft := .read profile profile.stored
    endpoints := profile.endpoints
    protocol := protocol
    transport := transport
    wsPath := orElse (profile.option "wsPath") "/mqtt"
    clientId := (profile.option "clientId").getD ""
    keepAliveSec := numberOption js (profile.option "keepAliveSec") 60
    cleanStart := profile.option "cleanStart" ≠ some "false"
    sessionExpirySec :=
      if protocol = .v5 then numberOption js (profile.option "sessionExpirySec") 0 else js.ofInt 0
    mechanism := if profile.authMechanism = .plain then .plain else .none
    username := ""
    password := ""
    tlsCaFile := if encrypted then (profile.option "tlsCaFile").getD "" else ""
    tlsSkipVerify := encrypted && profile.option "tlsSkipVerify" = some "true"
    managementUrl := (profile.option "managementUrl").getD ""
    managementKey := ""
    managementSecret := "" }

/-! ## NATS -/

/-- `NatsMechanism` -/
inductive NatsMechanism where
  | none | plain | token | nkey | creds | mtls
  deriving DecidableEq

/-- `NATS_MECHANISMS` -/
def NatsMechanism.stored : NatsMechanism → AuthMechanism
  | .none => .none
  | .plain => .plain
  | .token => .token
  | .nkey => .nkey
  | .creds => .creds
  | .mtls => .mutualTLS

/-- `NATS_MECHANISM_OF`, and none for any other. -/
def NatsMechanism.byStored : AuthMechanism → NatsMechanism
  | .plain => .plain
  | .token => .token
  | .nkey => .nkey
  | .creds => .creds
  | .mutualTLS => .mtls
  | _ => .none

/-- `NatsDraft` -/
structure NatsDraft extends SecretDraft where
  endpoints : String
  mechanism : NatsMechanism
  username : String
  password : String
  token : String
  nkeySeed : String
  credsFile : String
  tls : Bool
  tlsCaFile : String
  tlsCertFile : String
  tlsKeyFile : String
  tlsSkipVerify : Bool
  monitorUrl : String
  systemUser : String
  systemPassword : String
  jsDomain : String

/-- `natsSubmission` -/
def natsSubmission (draft : NatsDraft) : Submission :=
  let mechanism := draft.mechanism
  let encrypted := draft.tls || mechanism = .mtls
  draft.submission .nats (trim draft.endpoints) mechanism.stored
    [("tls", flag draft.tls), ("tlsCaFile", if encrypted then trim draft.tlsCaFile else ""),
      ("tlsSkipVerify", flag (encrypted && draft.tlsSkipVerify)),
      ("tlsCertFile", if mechanism = .mtls then trim draft.tlsCertFile else ""),
      ("tlsKeyFile", if mechanism = .mtls then trim draft.tlsKeyFile else ""),
      ("credsFile", if mechanism = .creds then trim draft.credsFile else ""),
      ("monitorUrl", trim draft.monitorUrl), ("jsDomain", trim draft.jsDomain)]
    [("username", typedWhen (mechanism = .plain) draft.username),
      ("password", typedWhen (mechanism = .plain) draft.password),
      ("token", typedWhen (mechanism = .token) draft.token),
      ("nkeySeed", typedWhen (mechanism = .nkey) draft.nkeySeed),
      ("systemUser", trim draft.systemUser), ("systemPassword", trim draft.systemPassword)]
    draft.preserving

/-- `toNatsDraft` -/
def toNatsDraft (profile : ConnectionView) : NatsDraft :=
  let mechanism := NatsMechanism.byStored profile.authMechanism
  let tls := profile.option "tls" = some "true"
  let encrypted := tls || mechanism = .mtls
  { toSecretDraft := .read profile profile.stored
    endpoints := profile.endpoints
    mechanism := mechanism
    username := ""
    password := ""
    token := ""
    nkeySeed := ""
    credsFile := if mechanism = .creds then (profile.option "credsFile").getD "" else ""
    tls := tls
    tlsCaFile := if encrypted then (profile.option "tlsCaFile").getD "" else ""
    tlsCertFile := if mechanism = .mtls then (profile.option "tlsCertFile").getD "" else ""
    tlsKeyFile := if mechanism = .mtls then (profile.option "tlsKeyFile").getD "" else ""
    tlsSkipVerify := encrypted && profile.option "tlsSkipVerify" = some "true"
    monitorUrl := (profile.option "monitorUrl").getD ""
    systemUser := ""
    systemPassword := ""
    jsDomain := (profile.option "jsDomain").getD "" }

/-! ## Pulsar -/

/-- `PulsarAuth` -/
inductive PulsarAuth where
  | none | token
  deriving DecidableEq

/-- `PulsarDraft` -/
structure PulsarDraft extends SecretDraft where
  service : String
  admin : String
  tenant : String
  «namespace» : String
  auth : PulsarAuth
  token : String
  tls : Bool
  tlsCaFile : String
  tlsSkipVerify : Bool

/-- `pulsarSubmission` -/
def pulsarSubmission (draft : PulsarDraft) : Submission :=
  let authenticating := draft.auth ≠ .none
  let token := typedWhen authenticating draft.token
  let typed := token ≠ ""
  draft.submission .pulsar (trim draft.service) (if authenticating then .token else .none)
    [("adminUrl", trim draft.admin), ("tenant", trim draft.tenant),
      ("namespace", trim draft.namespace), ("tls", flag draft.tls),
      ("tlsCaFile", if draft.tls then trim draft.tlsCaFile else ""),
      ("tlsSkipVerify", flag (draft.tls && draft.tlsSkipVerify))]
    [("token", token)] (draft.replacingOrAnonymous authenticating typed)

/-- `toPulsarDraft` -/
def toPulsarDraft (profile : ConnectionView) : PulsarDraft :=
  let tls := profile.option "tls" = some "true"
  let auth : PulsarAuth := if profile.authMechanism = .token then .token else .none
  { toSecretDraft := .read profile (auth ≠ .none && profile.stored)
    service := profile.endpoints
    admin := (profile.option "adminUrl").getD ""
    tenant := (profile.option "tenant").getD "public"
    «namespace» := (profile.option "namespace").getD "default"
    auth := auth
    token := ""
    tls := tls
    tlsCaFile := if tls then (profile.option "tlsCaFile").getD "" else ""
    tlsSkipVerify := tls && profile.option "tlsSkipVerify" = some "true" }

/-! ## ActiveMQ -/

/-- `ActiveMQDraft` -/
structure ActiveMQDraft extends SecretDraft where
  endpoints : String
  mechanism : PlainMechanism
  username : String
  password : String
  jolokiaPath : String
  brokerName : String
  originHeader : String
  tlsSkipVerify : Bool
  amqpUrl : String
  amqpUsername : String
  amqpPassword : String

/-- `activeMQSubmission` -/
def activeMQSubmission (draft : ActiveMQDraft) : Submission :=
  let mechanism := draft.mechanism
  let amqpUrl := trim draft.amqpUrl
  draft.submission .activemq (trim draft.endpoints) mechanism.stored
    [("jolokiaPath", trim draft.jolokiaPath), ("brokerName", trim draft.brokerName),
      ("originHeader", trim draft.originHeader), ("amqpUrl", amqpUrl),
      ("tlsSkipVerify", flag draft.tlsSkipVerify)]
    [("username", typedWhen (mechanism = .plain) draft.username),
      ("password", typedWhen (mechanism = .plain) draft.password),
      ("amqpUsername", typedWhen (amqpUrl ≠ "") draft.amqpUsername),
      ("amqpPassword", typedWhen (amqpUrl ≠ "") draft.amqpPassword)]
    draft.preserving

/-- `toActiveMQDraft` -/
def toActiveMQDraft (profile : ConnectionView) : ActiveMQDraft where
  toSecretDraft := .read profile profile.stored
  endpoints := profile.endpoints
  mechanism := .unlessNone profile.authMechanism
  username := ""
  password := ""
  jolokiaPath := (profile.option "jolokiaPath").getD ""
  brokerName := (profile.option "brokerName").getD ""
  originHeader := (profile.option "originHeader").getD ""
  tlsSkipVerify := profile.option "tlsSkipVerify" = some "true"
  amqpUrl := (profile.option "amqpUrl").getD ""
  amqpUsername := ""
  amqpPassword := ""

/-! ## NSQ -/

/-- `NsqDraft` -/
structure NsqDraft extends FormDraft where
  endpoints : String
  lookupdEndpoints : String
  tlsSkipVerify : Bool

/-- `nsqSubmission` -/
def nsqSubmission (draft : NsqDraft) : Submission :=
  draft.submission .nsq (trim draft.endpoints) .none
    [("lookupdEndpoints", trim draft.lookupdEndpoints), ("tlsSkipVerify", flag draft.tlsSkipVerify)]
    [] .replace

/-- `toNsqDraft` -/
def toNsqDraft (profile : ConnectionView) : NsqDraft where
  toFormDraft := .read profile
  endpoints := profile.endpoints
  lookupdEndpoints := (profile.option "lookupdEndpoints").getD ""
  tlsSkipVerify := profile.option "tlsSkipVerify" = some "true"

/-! ## SQS and Kinesis -/

/-- The fields `SqsDraft` and `KinesisDraft` share. -/
structure AwsDraft extends SecretDraft where
  region : String
  accessKeyId : String
  secretAccessKey : String
  sessionToken : String
  endpointUrl : String

/-- What the two submit: no address, and a pair that may be left to the machine. -/
def AwsDraft.submit (draft : AwsDraft) (kind : MQKind) (prefixKey prefixText : String) :
    Submission :=
  let accessKeyId := trim draft.accessKeyId
  let secretAccessKey := trim draft.secretAccessKey
  let sessionToken := trim draft.sessionToken
  let typed := accessKeyId ≠ "" || secretAccessKey ≠ "" || sessionToken ≠ ""
  draft.submission kind "" (if typed || draft.keepStored then .plain else .none)
    [("region", trim draft.region), (prefixKey, trim prefixText),
      ("endpointUrl", trim draft.endpointUrl)]
    [("awsAccessKeyId", accessKeyId), ("awsSecretAccessKey", secretAccessKey),
      ("awsSessionToken", sessionToken)] draft.preserving

/-- Credentials count as stored where the profile signs with them. -/
def ConnectionView.storedPlain (profile : ConnectionView) : Bool :=
  profile.authMechanism = .plain && profile.stored

/-- What the two read. -/
def AwsDraft.read (profile : ConnectionView) : AwsDraft where
  toSecretDraft := .read profile profile.storedPlain
  region := (profile.option "region").getD ""
  accessKeyId := ""
  secretAccessKey := ""
  sessionToken := ""
  endpointUrl := (profile.option "endpointUrl").getD ""

/-- `SqsDraft` -/
structure SqsDraft extends AwsDraft where
  queuePrefix : String

/-- `sqsSubmission` -/
def sqsSubmission (draft : SqsDraft) : Submission :=
  draft.submit .sqs "queuePrefix" draft.queuePrefix

/-- `toSqsDraft` -/
def toSqsDraft (profile : ConnectionView) : SqsDraft where
  toAwsDraft := .read profile
  queuePrefix := (profile.option "queuePrefix").getD ""

/-- `KinesisDraft` -/
structure KinesisDraft extends AwsDraft where
  streamPrefix : String

/-- `kinesisSubmission` -/
def kinesisSubmission (draft : KinesisDraft) : Submission :=
  draft.submit .kinesis "streamPrefix" draft.streamPrefix

/-- `toKinesisDraft` -/
def toKinesisDraft (profile : ConnectionView) : KinesisDraft where
  toAwsDraft := .read profile
  streamPrefix := (profile.option "streamPrefix").getD ""

/-! ## Google Pub/Sub -/

/-- `GooglePubSubDraft` -/
structure GooglePubSubDraft extends SecretDraft where
  projectId : String
  credentialsJson : String
  resourcePrefix : String
  emulatorHost : String

/-- `googlePubSubSubmission` -/
def googlePubSubSubmission (draft : GooglePubSubDraft) : Submission :=
  let credentials := trim draft.credentialsJson
  draft.submission .googlePubSub "" (if credentials ≠ "" || draft.keepStored then .plain else .none)
    [("projectId", trim draft.projectId), ("resourcePrefix", trim draft.resourcePrefix),
      ("emulatorHost", trim draft.emulatorHost)]
    [("googleCredentialsJson", credentials)] draft.preserving

/-- `toGooglePubSubDraft` -/
def toGooglePubSubDraft (profile : ConnectionView) : GooglePubSubDraft where
  toSecretDraft := .read profile profile.storedPlain
  projectId := (profile.option "projectId").getD ""
  credentialsJson := ""
  resourcePrefix := (profile.option "resourcePrefix").getD ""
  emulatorHost := (profile.option "emulatorHost").getD ""

/-! ## Azure Service Bus -/

/-- `AzureServiceBusDraft` -/
structure AzureServiceBusDraft extends SecretDraft where
  endpoints : String
  keyName : String
  sharedAccessKey : String
  connectionString : String
  entityPrefix : String
  emulatorManagement : String

/-- `azureServiceBusSubmission` -/
def azureServiceBusSubmission (draft : AzureServiceBusDraft) : Submission :=
  let key := trim draft.sharedAccessKey
  let connectionString := trim draft.connectionString
  let given := key ≠ "" || connectionString ≠ "" || draft.keepStored
  draft.submission .azureServiceBus (trim draft.endpoints) (if given then .plain else .none)
    [("sharedAccessKeyName", trim draft.keyName), ("entityPrefix", trim draft.entityPrefix),
      ("emulatorManagementHost", trim draft.emulatorManagement)]
    [("azureSharedAccessKey", key), ("azureConnectionString", connectionString)] draft.preserving

/-- `toAzureServiceBusDraft` -/
def toAzureServiceBusDraft (profile : ConnectionView) : AzureServiceBusDraft where
  toSecretDraft := .read profile profile.storedPlain
  endpoints := profile.endpoints
  keyName := orElse (profile.option "sharedAccessKeyName") "RootManageSharedAccessKey"
  sharedAccessKey := ""
  connectionString := ""
  entityPrefix := (profile.option "entityPrefix").getD ""
  emulatorManagement := (profile.option "emulatorManagementHost").getD ""

/-! ## IBM MQ -/

/-- `IbmMqDraft` -/
structure IbmMqDraft extends SecretDraft where
  endpoints : String
  mechanism : PlainMechanism
  username : String
  password : String
  queueManager : String
  messagingUsername : String
  messagingPassword : String
  tlsSkipVerify : Bool

/-- `ibmMqSubmission` -/
def ibmMqSubmission (draft : IbmMqDraft) : Submission :=
  let authenticated := draft.mechanism = .plain
  draft.submission .ibmmq (trim draft.endpoints) draft.mechanism.stored
    [("queueManager", trim draft.queueManager), ("tlsSkipVerify", flag draft.tlsSkipVerify)]
    [("username", typedWhen authenticated draft.username),
      ("password", typedWhen authenticated draft.password),
      ("messagingUsername", typedWhen authenticated draft.messagingUsername),
      ("messagingPassword", typedWhen authenticated draft.messagingPassword)]
    draft.preserving

/-- `toIbmMqDraft` -/
def toIbmMqDraft (profile : ConnectionView) : IbmMqDraft where
  toSecretDraft := .read profile profile.stored
  endpoints := profile.endpoints
  mechanism := .unlessNone profile.authMechanism
  username := ""
  password := ""
  queueManager := (profile.option "queueManager").getD ""
  messagingUsername := ""
  messagingPassword := ""
  tlsSkipVerify := profile.option "tlsSkipVerify" = some "true"

/-! ## Solace -/

/-- `SolaceDraft` -/
structure SolaceDraft extends SecretDraft where
  endpoints : String
  mechanism : PlainMechanism
  username : String
  password : String
  msgVpn : String
  restUrl : String
  restUsername : String
  restPassword : String
  tlsSkipVerify : Bool

/-- `solaceSubmission` -/
def solaceSubmission (draft : SolaceDraft) : Submission :=
  let authenticated := draft.mechanism = .plain
  draft.submission .solace (trim draft.endpoints) draft.mechanism.stored
    [("msgVpn", trim draft.msgVpn), ("restUrl", trim draft.restUrl),
      ("tlsSkipVerify", flag draft.tlsSkipVerify)]
    [("username", typedWhen authenticated draft.username),
      ("password", typedWhen authenticated draft.password),
      ("restUsername", trim draft.restUsername), ("restPassword", trim draft.restPassword)]
    draft.preserving

/-- `toSolaceDraft` -/
def toSolaceDraft (profile : ConnectionView) : SolaceDraft where
  toSecretDraft := .read profile profile.stored
  endpoints := profile.endpoints
  mechanism := .unlessNone profile.authMechanism
  username := ""
  password := ""
  msgVpn := (profile.option "msgVpn").getD ""
  restUrl := (profile.option "restUrl").getD ""
  restUsername := ""
  restPassword := ""
  tlsSkipVerify := profile.option "tlsSkipVerify" = some "true"

/-! ## Every form -/

/-- `ProtocolDraft` -/
inductive ProtocolDraft (ν : Type) where
  | rocketmq (value : RocketMQDraft)
  | rabbitmq (value : RabbitMQDraft)
  | kafka (value : KafkaDraft)
  | pulsar (value : PulsarDraft)
  | redis (value : RedisDraft ν)
  | mqtt (value : MqttDraft ν)
  | nats (value : NatsDraft)
  | activemq (value : ActiveMQDraft)
  | nsq (value : NsqDraft)
  | sqs (value : SqsDraft)
  | googlePubSub (value : GooglePubSubDraft)
  | azureServiceBus (value : AzureServiceBusDraft)
  | kinesis (value : KinesisDraft)
  | ibmmq (value : IbmMqDraft)
  | solace (value : SolaceDraft)

/-- `toSubmission` -/
def toSubmission {ν : Type} (js : Numbers ν) : ProtocolDraft ν → Submission
  | .rocketmq value => rocketMQSubmission value
  | .rabbitmq value => rabbitMQSubmission value
  | .kafka value => kafkaSubmission value
  | .pulsar value => pulsarSubmission value
  | .redis value => redisSubmission js value
  | .mqtt value => mqttSubmission js value
  | .nats value => natsSubmission value
  | .activemq value => activeMQSubmission value
  | .nsq value => nsqSubmission value
  | .sqs value => sqsSubmission value
  | .googlePubSub value => googlePubSubSubmission value
  | .azureServiceBus value => azureServiceBusSubmission value
  | .kinesis value => kinesisSubmission value
  | .ibmmq value => ibmMqSubmission value
  | .solace value => solaceSubmission value

/-- `toDraft`: a family without a form of its own is read into RocketMQ's. -/
def toDraft {ν : Type} (js : Numbers ν) (profile : ConnectionView) : ProtocolDraft ν :=
  match profile.kind with
  | .rabbitmq => .rabbitmq (toRabbitMQDraft profile)
  | .kafka => .kafka (toKafkaDraft profile)
  | .pulsar => .pulsar (toPulsarDraft profile)
  | .redisStream => .redis (toRedisDraft js profile)
  | .mqtt => .mqtt (toMqttDraft js profile)
  | .nats => .nats (toNatsDraft profile)
  | .activemq => .activemq (toActiveMQDraft profile)
  | .nsq => .nsq (toNsqDraft profile)
  | .sqs => .sqs (toSqsDraft profile)
  | .googlePubSub => .googlePubSub (toGooglePubSubDraft profile)
  | .azureServiceBus => .azureServiceBus (toAzureServiceBusDraft profile)
  | .kinesis => .kinesis (toKinesisDraft profile)
  | .ibmmq => .ibmmq (toIbmMqDraft profile)
  | .solace => .solace (toSolaceDraft profile)
  | .rocketmq | .unset | .other _ _ => .rocketmq (toRocketMQDraft profile)

/-! ## Objects -/

theorem getElem?_record_cons (key value : String) (rest : List (String × String)) (a : String) :
    (record ((key, value) :: rest))[a]? = if key = a then some value else (record rest)[a]? := by
  rw [record, getElem?_insert_ite]

end MqStudio.Connection.Forms
