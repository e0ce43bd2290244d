import Mathlib.Data.List.Forall2
import MqStudio.Connection.Forms

/-!
# Reopening a Form

`toSubmission` of `toDraft`: what a form that is opened on a stored profile and left as it is
submits. The name and the addresses are trimmed, every option of the family is written whether it
was there or not, the mechanism is the one the form could make of the stored one, and no secret is
filled in.

## Main definitions

- `spellings`: the options a family's form writes, each with the texts that it reads and writes
  back.

## Main results

- `options_reopened`: the options come back exactly where they are spelled so.
- `mechanism_reopened`, `credentialsMode_reopened`.
-/

namespace MqStudio.Connection.Forms

open MqStudio.Lib
open MqStudio.Lib.TreeMap
open MqStudio.Model

/-! ## Objects by their properties -/

section Objects

variable {entries : List (String × String)} {key value : String} {options : StringMap}

theorem getElem?_record_of_mem (hnodup : (entries.map Prod.fst).Nodup)
    (h : (key, value) ∈ entries) : (record entries)[key]? = some value := by
  induction entries with
  | nil => cases h
  | cons entry rest ih =>
    obtain ⟨k, v⟩ := entry
    obtain ⟨hfresh, hrest⟩ := List.nodup_cons.mp hnodup
    rw [getElem?_record_cons]
    rcases List.mem_cons.mp h with heq | hlater
    · cases heq
      rw [if_pos rfl]
    · have hne : k ≠ key := by
        rintro rfl
        exact hfresh (List.mem_map.mpr ⟨_, hlater, rfl⟩)
      rw [if_neg hne]
      exact ih hrest hlater

theorem mem_of_getElem?_record (h : (record entries)[key]? = some value) : (key, value) ∈ entries := by
  induction entries with
  | nil => simp [record] at h
  | cons entry rest ih =>
    obtain ⟨k, v⟩ := entry
    rw [getElem?_record_cons] at h
    split at h
    · rename_i heq
      cases h
      rw [heq]
      exact List.mem_cons_self
    · exact List.mem_cons_of_mem _ (ih h)

/-- **An object is another** where it has no property but its own, and each of these. -/
theorem record_eq_iff (hnodup : (entries.map Prod.fst).Nodup) :
    record entries = options ↔
      (∀ key, options[key]? ≠ none → key ∈ entries.map Prod.fst) ∧
        ∀ entry ∈ entries, options[entry.1]? = some entry.2 := by
  constructor
  · rintro rfl
    refine ⟨fun key hkey => ?_, fun entry hmem => getElem?_record_of_mem hnodup hmem⟩
    obtain ⟨value, hvalue⟩ := Option.ne_none_iff_exists'.mp hkey
    exact List.mem_map_of_mem (mem_of_getElem?_record hvalue)
  · rintro ⟨hown, hall⟩
    ext1 key
    by_cases hkey : key ∈ entries.map Prod.fst
    · obtain ⟨entry, hmem, rfl⟩ := List.mem_map.mp hkey
      rw [getElem?_record_of_mem hnodup hmem, hall entry hmem]
    · have hnone : options[key]? = none := by
        by_contra hsome
        exact hkey (hown key hsome)
      rw [hnone]
      by_contra hsome
      obtain ⟨value, hvalue⟩ := Option.ne_none_iff_exists'.mp hsome
      exact hkey (List.mem_map_of_mem (mem_of_getElem?_record hvalue))

end Objects

/-! ## Spellings -/

/-- A key and the texts under it that a form reads and writes back. -/
abbrev Spelling : Type := String × (String → Prop)

/-- The option is there, and spelled so. -/
def Spelled (options : StringMap) (spelling : Spelling) : Prop :=
  ∃ value, options[spelling.1]? = some value ∧ spelling.2 value

/-- There are these options and no others, each spelled so. -/
structure SpelledOut (options : StringMap) (spellings : List Spelling) : Prop where
  own : ∀ key, options[key]? ≠ none → key ∈ spellings.map Prod.fst
  each : ∀ spelling ∈ spellings, Spelled options spelling

/-- Without white space at its ends. -/
def Trimmed (value : String) : Prop := trim value = value

/-- Nor blank. -/
def Named (value : String) : Prop := trim value = value ∧ value ≠ ""

/-- One of the two words for a boolean. -/
def Switch (value : String) : Prop := value = "true" ∨ value = "false"

/-- One of the words of a choice. -/
def OneOf (words : List String) (value : String) : Prop := value ∈ words

/-- A text where the setting applies, and the word for nothing where it does not. -/
def Where (applies : Prop) (spelled : String → Prop) (off value : String) : Prop :=
  (applies → spelled value) ∧ (¬ applies → value = off)

/-- A number as it is written. -/
def Number {ν : Type} (js : Numbers ν) (fallback : Int) (value : String) : Prop :=
  js.text (numberOption js (some value) fallback) = value

/-- One that is not negative, or the word for zero. -/
def Natural {ν : Type} (js : Numbers ν) (value : String) : Prop :=
  js.text ((js.parseInt value).elim (js.ofInt 0) fun n =>
    if js.negative n then js.ofInt 0 else n) = value

/-- Whether the families' switch for TLS is on. -/
def TlsOn (options : StringMap) : Prop := options["tls"]? = some "true"

/-- Whether an MQTT transport is encrypted, or is a web socket. -/
def TransportIn (options : StringMap) (transports : List String) : Prop :=
  ∃ transport ∈ transports, options["transport"]? = some transport

/-- **What a family's form writes back**, of the mechanism and the options it was opened on. -/
def spellings {ν : Type} (js : Numbers ν) (mechanism : AuthMechanism) (options : StringMap) :
    MQKind → List Spelling
  | .rabbitmq =>
    [("vhost", Named), ("amqpEndpoint", Trimmed), ("tls", Switch),
      ("tlsSkipVerify", Where (TlsOn options) Switch "false")]
  | .kafka =>
    [("scramSha", OneOf ["256", "512"]), ("tls", Switch),
      ("tlsCaFile", Where (TlsOn options) Trimmed ""),
      ("tlsSkipVerify", Where (TlsOn options) Switch "false")]
  | .redisStream =>
    [("deployment", OneOf ["standalone", "sentinel", "cluster"]),
      ("masterName", Where (options["deployment"]? = some "sentinel") Trimmed ""),
      ("db", Where (options["deployment"]? ≠ some "cluster") (Natural js) "0"),
      ("streamFilter", Trimmed), ("tls", Switch),
      ("tlsSkipVerify", Where (TlsOn options) Switch "false")]
  | .mqtt =>
    [("protocolVersion", OneOf ["5", "311"]), ("transport", OneOf ["tcp", "tls", "ws", "wss"]),
      ("wsPath", Where (TransportIn options ["ws", "wss"]) Named ""), ("clientId", Trimmed),
      ("keepAliveSec", Number js 60), ("cleanStart", Switch),
      ("sessionExpirySec",
        Where (options["protocolVersion"]? ≠ some "311") (Number js 0) "0"),
      ("tlsCaFile", Where (TransportIn options ["tls", "wss"]) Trimmed ""),
      ("tlsSkipVerify", Where (TransportIn options ["tls", "wss"]) Switch "false"),
      ("managementUrl", Trimmed)]
  | .nats =>
    [("tls", Switch), ("tlsCaFile", Where (TlsOn options ∨ mechanism = .mutualTLS) Trimmed ""),
      ("tlsSkipVerify", Where (TlsOn options ∨ mechanism = .mutualTLS) Switch "false"),
      ("tlsCertFile", Where (mechanism = .mutualTLS) Trimmed ""),
      ("tlsKeyFile", Where (mechanism = .mutualTLS) Trimmed ""),
      ("credsFile", Where (mechanism = .creds) Trimmed ""), ("monitorUrl", Trimmed),
      ("jsDomain", Trimmed)]
  | .pulsar =>
    [("adminUrl", Trimmed), ("tenant", Trimmed), ("namespace", Trimmed), ("tls", Switch),
      ("tlsCaFile", Where (TlsOn options) Trimmed ""),
      ("tlsSkipVerify", Where (TlsOn options) Switch "false")]
  | .activemq =>
    [("jolokiaPath", Trimmed), ("brokerName", Trimmed), ("originHeader", Trimmed),
      ("amqpUrl", Trimmed), ("tlsSkipVerify", Switch)]
  | .nsq => [("lookupdEndpoints", Trimmed), ("tlsSkipVerify", Switch)]
  | .sqs => [("region", Trimmed), ("queuePrefix", Trimmed), ("endpointUrl", Trimmed)]
  | .kinesis => [("region", Trimmed), ("streamPrefix", Trimmed), ("endpointUrl", Trimmed)]
  | .googlePubSub =>
    [("projectId", Trimmed), ("resourcePrefix", Trimmed), ("emulatorHost", Trimmed)]
  | .azureServiceBus =>
    [("sharedAccessKeyName", Named), ("entityPrefix", Trimmed),
      ("emulatorManagementHost", Trimmed)]
  | .ibmmq => [("queueManager", Trimmed), ("tlsSkipVerify", Switch)]
  | .solace => [("msgVpn", Trimmed), ("restUrl", Trimmed), ("tlsSkipVerify", Switch)]
  | .rocketmq | .unset | .other _ _ =>
    [("version", OneOf ["4.x", "5.x"]), ("access", OneOf ["ns", "proxy"]), ("namespace", Trimmed)]

/-! ## One option -/

section Option

variable {options : StringMap} {key : String}

/-- What is written of an option is what it was, where it is there and is written as itself. -/
theorem spelled_iff {spelled : String → Prop} (write : Option String → String)
    (h : ∀ value, options[key]? = some value → (write (some value) = value ↔ spelled value)) :
    options[key]? = some (write options[key]?) ↔ Spelled options (key, spelled) := by
  cases hvalue : options[key]? with
  | none => simp [Spelled, hvalue]
  | some value =>
    have hvalue' := h value hvalue
    simp only [Spelled, hvalue, Option.some.injEq, exists_eq_left', ← hvalue']
    exact eq_comm

theorem trimmed_iff (fallback : String) :
    options[key]? = some (trim (options[key]?.getD fallback)) ↔ Spelled options (key, Trimmed) :=
  spelled_iff (fun read => trim (read.getD fallback)) fun _ _ => Iff.rfl

theorem trim_empty : trim "" = "" := rfl

/-- A setting with a name of its own for nothing. -/
theorem named_iff {fallback : String} (hfallback : trim fallback ≠ "") :
    options[key]? = some (trim (orElse options[key]? fallback)) ↔ Spelled options (key, Named) := by
  refine spelled_iff (fun read => trim (orElse read fallback)) fun value _ => ?_
  by_cases hblank : value = ""
  · simp [orElse, Named, hblank, hfallback]
  · simp [orElse, Named, hblank]

theorem switch_iff :
    options[key]? = some (flag (options[key]? = some "true")) ↔ Spelled options (key, Switch) := by
  refine spelled_iff (fun read => flag (read = some "true")) fun value _ => ?_
  by_cases hon : value = "true"
  · simp [flag, Switch, hon]
  · simp [flag, Switch, hon, eq_comm]

/-- A switch that is on unless it is off. -/
theorem switchOff_iff :
    options[key]? = some (flag (options[key]? ≠ some "false")) ↔ Spelled options (key, Switch) := by
  refine spelled_iff (fun read => flag (read ≠ some "false")) fun value _ => ?_
  by_cases hoff : value = "false"
  · simp [flag, Switch, hoff]
  · simp [flag, Switch, hoff, eq_comm]

/-- A setting that is read and written where it applies. -/
theorem where_iff {applies : Prop} {spelled : String → Prop} {off : String} {c : Prop} [Decidable c]
    (hc : c ↔ applies) (write : Option String → String)
    (hon : c → ∀ value, write (some value) = value ↔ spelled value)
    (hoff : ¬ c → ∀ value, write (some value) = off) :
    options[key]? = some (write options[key]?) ↔
      Spelled options (key, Where applies spelled off) := by
  refine spelled_iff write fun value _ => ?_
  by_cases h : c
  · simp [Where, ← hc, h, hon h]
  · simp [Where, ← hc, h, hoff h, eq_comm]

theorem trimmedWhere_iff {applies c c' : Prop} [Decidable c] [Decidable c'] (hc : c ↔ applies)
    (hc' : c' ↔ applies) :
    options[key]? = some (if c then trim (if c' then options[key]?.getD "" else "") else "") ↔
      Spelled options (key, Where applies Trimmed "") := by
  refine where_iff hc (fun read => if c then trim (if c' then read.getD "" else "") else "")
    (fun h value => ?_) fun h value => ?_
  · have h' : c' := hc'.mpr (hc.mp h)
    simp [h, h', Trimmed]
  · simp [h]

theorem switchWhere_iff {applies : Prop} {b : Bool} (hb : b = true ↔ applies) :
    options[key]? = some (flag (b && (b && options[key]? = some "true"))) ↔
      Spelled options (key, Where applies Switch "false") := by
  refine where_iff hb (fun read => flag (b && (b && read = some "true")))
    (fun h value => ?_) fun h value => ?_
  · by_cases hon : value = "true"
    · simp [h, flag, Switch, hon]
    · simp [h, flag, Switch, hon, eq_comm]
  · simp [h, flag]

end Option

/-! ## Every option of a family -/

/-- Written one by one, the options come back where each does. -/
theorem spelledOut_iff {options : StringMap} {written : List (String × String)}
    {spelled : List Spelling} (hnodup : (written.map Prod.fst).Nodup)
    (h : List.Forall₂ (fun entry spelling => entry.1 = spelling.1 ∧
      (options[entry.1]? = some entry.2 ↔ Spelled options spelling)) written spelled) :
    record written = options ↔ SpelledOut options spelled := by
  have hkeys : written.map Prod.fst = spelled.map Prod.fst := by
    induction h with
    | nil => rfl
    | cons hhead _ ih =>
      rw [List.map_cons, List.map_cons, hhead.1, ih (List.nodup_cons.mp hnodup).2]
  have heach : (∀ entry ∈ written, options[entry.1]? = some entry.2) ↔
      ∀ spelling ∈ spelled, Spelled options spelling := by
    clear hnodup hkeys
    induction h with
    | nil => simp
    | cons hhead _ ih => rw [List.forall_mem_cons, List.forall_mem_cons, hhead.2, ih]
  rw [record_eq_iff hnodup, heach, hkeys]
  exact ⟨fun ⟨hown, hall⟩ => ⟨hown, hall⟩, fun ⟨hown, hall⟩ => ⟨hown, hall⟩⟩

section Families

variable {ν : Type} (js : Numbers ν) (v : ConnectionView)

theorem tlsOn_iff {options : StringMap} :
    decide (options["tls"]? = some "true") = true ↔ TlsOn options := decide_eq_true_iff

theorem rocketMQ_options :
    (rocketMQSubmission (toRocketMQDraft v)).draft.options = v.options.getD ∅ ↔
      SpelledOut (v.options.getD ∅) (spellings js v.authMechanism (v.options.getD ∅) .rocketmq) := by
  dsimp only [rocketMQSubmission, toRocketMQDraft, FormDraft.submission, ConnectionView.option]
  refine spelledOut_iff (by simp)
    (.cons ⟨rfl, ?_⟩ (.cons ⟨rfl, ?_⟩ (.cons ⟨rfl, trimmed_iff ""⟩ .nil)))
  · refine spelled_iff (fun read =>
      (if read = some "4.x" then RocketMQVersion.v4 else .v5).text) fun value _ => ?_
    by_cases h : value = "4.x"
    · simp [h, RocketMQVersion.text, OneOf]
    · simp [h, RocketMQVersion.text, OneOf, eq_comm]
  · refine spelled_iff (fun read =>
      (if read = some "proxy" then RocketMQAccess.proxy else .ns).text) fun value _ => ?_
    by_cases h : value = "proxy"
    · simp [h, RocketMQAccess.text, OneOf]
    · simp [h, RocketMQAccess.text, OneOf, eq_comm]

/-- A blank virtual host is the root. -/
theorem vhost_iff {options : StringMap} {key : String} {c : Prop} [Decidable c]
    (hc : c ↔ trim (options[key]?.getD "/") = "") :
    options[key]? = some (if c then "/" else trim (options[key]?.getD "/")) ↔
      Spelled options (key, Named) := by
  cases hvalue : options[key]? with
  | none => simp [Spelled, hvalue]
  | some value =>
    rw [hvalue, Option.getD_some] at hc
    simp only [Spelled, hvalue, Option.getD_some, Option.some.injEq, exists_eq_left', Named]
    by_cases h : c
    · rw [if_pos h]
      have hblank := hc.mp h
      constructor
      · rintro rfl
        exact absurd hblank (by decide)
      · rintro ⟨hsame, hne⟩
        exact absurd (hsame.symm.trans hblank) hne
    · rw [if_neg h]
      refine ⟨fun hsame => ⟨hsame.symm, ?_⟩, fun hnamed => hnamed.1.symm⟩
      rintro rfl
      exact h (hc.mpr trim_empty)

theorem rabbitMQ_options :
    (rabbitMQSubmission (toRabbitMQDraft v)).draft.options = v.options.getD ∅ ↔
      SpelledOut (v.options.getD ∅) (spellings js v.authMechanism (v.options.getD ∅) .rabbitmq) := by
  dsimp only [rabbitMQSubmission, toRabbitMQDraft, FormDraft.submission, ConnectionView.option]
  refine spelledOut_iff (by simp) (.cons ⟨rfl, ?_⟩ (.cons ⟨rfl, trimmed_iff ""⟩
    (.cons ⟨rfl, switch_iff⟩ (.cons ⟨rfl, switchWhere_iff tlsOn_iff⟩ .nil))))
  dsimp only
  exact vhost_iff Iff.rfl

theorem kafka_options :
    (kafkaSubmission (toKafkaDraft v)).draft.options = v.options.getD ∅ ↔
      SpelledOut (v.options.getD ∅) (spellings js v.authMechanism (v.options.getD ∅) .kafka) := by
  dsimp only [kafkaSubmission, toKafkaDraft, FormDraft.submission, ConnectionView.option]
  refine spelledOut_iff (by simp) (.cons ⟨rfl, ?_⟩ (.cons ⟨rfl, switch_iff⟩
    (.cons ⟨rfl, trimmedWhere_iff tlsOn_iff Iff.rfl⟩
      (.cons ⟨rfl, switchWhere_iff tlsOn_iff⟩ .nil))))
  refine spelled_iff (fun read =>
    (if read = some "256" then KafkaScramSha.sha256 else .sha512).text) fun value _ => ?_
  by_cases h : value = "256"
  · simp [h, KafkaScramSha.text, OneOf]
  · simp [h, KafkaScramSha.text, OneOf, eq_comm]

theorem redisDeployment_text (value : String) :
    (RedisDeployment.read (some value)).text = value ↔
      OneOf ["standalone", "sentinel", "cluster"] value := by
  by_cases hsentinel : value = "sentinel"
  · simp [RedisDeployment.read, RedisDeployment.text, OneOf, hsentinel]
  · by_cases hcluster : value = "cluster"
    · simp [RedisDeployment.read, RedisDeployment.text, OneOf, hcluster]
    · simp [RedisDeployment.read, RedisDeployment.text, OneOf, hsentinel, hcluster, eq_comm]

theorem redisDeployment_sentinel (read : Option String) :
    RedisDeployment.read read = .sentinel ↔ read = some "sentinel" := by
  unfold RedisDeployment.read
  split
  · simp_all
  · split <;> simp_all

theorem redisDeployment_cluster (read : Option String) :
    RedisDeployment.read read ≠ .cluster ↔ read ≠ some "cluster" := by
  unfold RedisDeployment.read
  split
  · simp_all
  · split <;> simp_all

theorem redis_options :
    (redisSubmission js (toRedisDraft js v)).draft.options = v.options.getD ∅ ↔
      SpelledOut (v.options.getD ∅)
        (spellings js v.authMechanism (v.options.getD ∅) .redisStream) := by
  dsimp only [redisSubmission, toRedisDraft, FormDraft.submission, ConnectionView.option]
  refine spelledOut_iff (by simp)
    (.cons ⟨rfl, spelled_iff (fun read => (RedisDeployment.read read).text)
      fun value _ => redisDeployment_text value⟩
    (.cons ⟨rfl, trimmedWhere_iff (redisDeployment_sentinel _) (redisDeployment_sentinel _)⟩
    (.cons ⟨rfl, ?_⟩ (.cons ⟨rfl, trimmed_iff ""⟩ (.cons ⟨rfl, switch_iff⟩
    (.cons ⟨rfl, switchWhere_iff tlsOn_iff⟩ .nil))))))
  refine where_iff (redisDeployment_cluster _) (fun read =>
    if RedisDeployment.read (v.options.getD ∅)["deployment"]? = .cluster then "0"
    else js.text (redisDB js (RedisDeployment.read (v.options.getD ∅)["deployment"]?) read))
    (fun h value => ?_) fun h value => ?_
  · rw [if_neg h, redisDB, Natural, Option.getD_some]
    cases js.parseInt value with
    | none => rfl
    | some n => simp [h]
  · rw [if_pos (not_not.mp h)]

theorem mqttTransport_text (value : String) :
    (MqttTransport.read (some value)).text = value ↔ OneOf ["tcp", "tls", "ws", "wss"] value := by
  by_cases htls : value = "tls"
  · simp [MqttTransport.read, MqttTransport.text, OneOf, htls]
  · by_cases hws : value = "ws"
    · simp [MqttTransport.read, MqttTransport.text, OneOf, hws]
    · by_cases hwss : value = "wss"
      · simp [MqttTransport.read, MqttTransport.text, OneOf, hwss]
      · simp [MqttTransport.read, MqttTransport.text, OneOf, htls, hws, hwss, eq_comm]

theorem mqttTransport_cases (read : Option String) :
    (read = some "tls" ∧ MqttTransport.read read = .tls) ∨
      (read = some "ws" ∧ MqttTransport.read read = .ws) ∨
      (read = some "wss" ∧ MqttTransport.read read = .wss) ∨
      ((read ≠ some "tls" ∧ read ≠ some "ws" ∧ read ≠ some "wss") ∧
        MqttTransport.read read = .tcp) := by
  unfold MqttTransport.read
  split
  · exact .inl ⟨by assumption, rfl⟩
  · split
    · exact .inr (.inl ⟨by assumption, rfl⟩)
    · split
      · exact .inr (.inr (.inl ⟨by assumption, rfl⟩))
      · exact .inr (.inr (.inr ⟨⟨by assumption, by assumption, by assumption⟩, rfl⟩))

theorem mqttTransport_encrypted (options : StringMap) :
    (MqttTransport.read options["transport"]?).encrypted = true ↔
      TransportIn options ["tls", "wss"] := by
  rcases mqttTransport_cases options["transport"]? with ⟨h, hread⟩ | ⟨h, hread⟩ | ⟨h, hread⟩ |
    ⟨⟨h, h', h''⟩, hread⟩ <;>
    simp_all [TransportIn, MqttTransport.encrypted]

theorem mqttTransport_webSocket (options : StringMap) :
    (MqttTransport.read options["transport"]?).webSocket = true ↔
      TransportIn options ["ws", "wss"] := by
  rcases mqttTransport_cases options["transport"]? with ⟨h, hread⟩ | ⟨h, hread⟩ | ⟨h, hread⟩ |
    ⟨⟨h, h', h''⟩, hread⟩ <;>
    simp_all [TransportIn, MqttTransport.webSocket]

theorem number_iff {options : StringMap} {key : String} (fallback : Int) :
    options[key]? = some (js.text (numberOption js options[key]? fallback)) ↔
      Spelled options (key, Number js fallback) :=
  spelled_iff (fun read => js.text (numberOption js read fallback)) fun _ _ => Iff.rfl

/-- The protocol an MQTT profile is read to speak. -/
def mqttProtocol (read : Option String) : MqttProtocol := if read = some "311" then .v311 else .v5

theorem mqttProtocol_v5 (read : Option String) : mqttProtocol read = .v5 ↔ read ≠ some "311" := by
  unfold mqttProtocol
  split <;> simp_all

theorem mqtt_options :
    (mqttSubmission js (toMqttDraft js v)).draft.options = v.options.getD ∅ ↔
      SpelledOut (v.options.getD ∅) (spellings js v.authMechanism (v.options.getD ∅) .mqtt) := by
  dsimp only [mqttSubmission, toMqttDraft, FormDraft.submission, ConnectionView.option]
  refine spelledOut_iff (by simp) (.cons ⟨rfl, ?_⟩
    (.cons ⟨rfl, spelled_iff (fun read => (MqttTransport.read read).text)
      fun value _ => mqttTransport_text value⟩
    (.cons ⟨rfl, ?_⟩ (.cons ⟨rfl, trimmed_iff ""⟩ (.cons ⟨rfl, number_iff js 60⟩
    (.cons ⟨rfl, switchOff_iff⟩ (.cons ⟨rfl, ?_⟩
    (.cons ⟨rfl, trimmedWhere_iff (mqttTransport_encrypted _) (mqttTransport_encrypted _)⟩
    (.cons ⟨rfl, switchWhere_iff (mqttTransport_encrypted _)⟩
    (.cons ⟨rfl, trimmed_iff ""⟩ .nil))))))))))
  · refine spelled_iff (fun read =>
      (if read = some "311" then MqttProtocol.v311 else .v5).text) fun value _ => ?_
    by_cases h : value = "311"
    · simp [h, MqttProtocol.text, OneOf]
    · simp [h, MqttProtocol.text, OneOf, eq_comm]
  · refine where_iff (mqttTransport_webSocket _) (fun read =>
      if (MqttTransport.read (v.options.getD ∅)["transport"]?).webSocket = true then
        trim (orElse read "/mqtt") else "")
      (fun h value => ?_) fun h value => ?_
    · by_cases hblank : value = ""
      · simp [h, orElse, Named, hblank, show trim "/mqtt" ≠ "" by decide]
      · simp [h, orElse, Named, hblank]
    · simp [h]
  · refine where_iff (mqttProtocol_v5 _) (fun read =>
      if mqttProtocol (v.options.getD ∅)["protocolVersion"]? = .v5 then
        js.text (if mqttProtocol (v.options.getD ∅)["protocolVersion"]? = .v5 then
          numberOption js read 0 else js.ofInt 0) else "0")
      (fun h value => ?_) fun h value => ?_
    · rw [if_pos h, if_pos h, Number]
    · rw [if_neg h]

theorem natsMechanism_mtls (mechanism : AuthMechanism) :
    NatsMechanism.byStored mechanism = .mtls ↔ mechanism = .mutualTLS := by
  cases mechanism <;> simp [NatsMechanism.byStored]

theorem natsMechanism_creds (mechanism : AuthMechanism) :
    NatsMechanism.byStored mechanism = .creds ↔ mechanism = .creds := by
  cases mechanism <;> simp [NatsMechanism.byStored]

theorem nats_options :
    (natsSubmission (toNatsDraft v)).draft.options = v.options.getD ∅ ↔
      SpelledOut (v.options.getD ∅) (spellings js v.authMechanism (v.options.getD ∅) .nats) := by
  dsimp only [natsSubmission, toNatsDraft, FormDraft.submission, ConnectionView.option]
  have hencrypted : (decide ((v.options.getD ∅)["tls"]? = some "true") ||
      decide (NatsMechanism.byStored v.authMechanism = .mtls)) = true ↔
        TlsOn (v.options.getD ∅) ∨ v.authMechanism = .mutualTLS := by
    rw [Bool.or_eq_true, tlsOn_iff, decide_eq_true_iff, natsMechanism_mtls]
  exact spelledOut_iff (by simp) (.cons ⟨rfl, switch_iff⟩
    (.cons ⟨rfl, trimmedWhere_iff hencrypted hencrypted⟩ (.cons ⟨rfl, switchWhere_iff hencrypted⟩
    (.cons ⟨rfl, trimmedWhere_iff (natsMechanism_mtls _) (natsMechanism_mtls _)⟩
    (.cons ⟨rfl, trimmedWhere_iff (natsMechanism_mtls _) (natsMechanism_mtls _)⟩
    (.cons ⟨rfl, trimmedWhere_iff (natsMechanism_creds _) (natsMechanism_creds _)⟩
    (.cons ⟨rfl, trimmed_iff ""⟩ (.cons ⟨rfl, trimmed_iff ""⟩ .nil))))))))

theorem pulsar_options :
    (pulsarSubmission (toPulsarDraft v)).draft.options = v.options.getD ∅ ↔
      SpelledOut (v.options.getD ∅) (spellings js v.authMechanism (v.options.getD ∅) .pulsar) := by
  dsimp only [pulsarSubmission, toPulsarDraft, FormDraft.submission, ConnectionView.option]
  exact spelledOut_iff (by simp) (.cons ⟨rfl, trimmed_iff ""⟩ (.cons ⟨rfl, trimmed_iff "public"⟩
    (.cons ⟨rfl, trimmed_iff "default"⟩ (.cons ⟨rfl, switch_iff⟩
    (.cons ⟨rfl, trimmedWhere_iff tlsOn_iff Iff.rfl⟩
    (.cons ⟨rfl, switchWhere_iff tlsOn_iff⟩ .nil))))))

/-- **The options come back** where the family's are there and no others, each as the form spells
    it. -/
theorem options_reopened :
    (toSubmission js (toDraft js v)).draft.options = v.options.getD ∅ ↔
      SpelledOut (v.options.getD ∅) (spellings js v.authMechanism (v.options.getD ∅) v.kind) := by
  unfold toDraft
  cases v.kind with
  | rocketmq | unset | other name unlisted => exact rocketMQ_options js v
  | rabbitmq => exact rabbitMQ_options js v
  | kafka => exact kafka_options js v
  | redisStream => exact redis_options js v
  | mqtt => exact mqtt_options js v
  | nats => exact nats_options js v
  | pulsar => exact pulsar_options js v
  | activemq =>
    dsimp only [toSubmission, activeMQSubmission, toActiveMQDraft, FormDraft.submission,
      ConnectionView.option]
    exact spelledOut_iff (by simp) (.cons ⟨rfl, trimmed_iff ""⟩ (.cons ⟨rfl, trimmed_iff ""⟩
      (.cons ⟨rfl, trimmed_iff ""⟩ (.cons ⟨rfl, trimmed_iff ""⟩ (.cons ⟨rfl, switch_iff⟩ .nil)))))
  | nsq =>
    dsimp only [toSubmission, nsqSubmission, toNsqDraft, FormDraft.submission,
      ConnectionView.option]
    exact spelledOut_iff (by simp) (.cons ⟨rfl, trimmed_iff ""⟩ (.cons ⟨rfl, switch_iff⟩ .nil))
  | sqs =>
    dsimp only [toSubmission, sqsSubmission, toSqsDraft, AwsDraft.submit, AwsDraft.read,
      FormDraft.submission, ConnectionView.option]
    exact spelledOut_iff (by simp) (.cons ⟨rfl, trimmed_iff ""⟩ (.cons ⟨rfl, trimmed_iff ""⟩
      (.cons ⟨rfl, trimmed_iff ""⟩ .nil)))
  | kinesis =>
    dsimp only [toSubmission, kinesisSubmission, toKinesisDraft, AwsDraft.submit, AwsDraft.read,
      FormDraft.submission, ConnectionView.option]
    exact spelledOut_iff (by simp) (.cons ⟨rfl, trimmed_iff ""⟩ (.cons ⟨rfl, trimmed_iff ""⟩
      (.cons ⟨rfl, trimmed_iff ""⟩ .nil)))
  | googlePubSub =>
    dsimp only [toSubmission, googlePubSubSubmission, toGooglePubSubDraft, FormDraft.submission,
      ConnectionView.option]
    exact spelledOut_iff (by simp) (.cons ⟨rfl, trimmed_iff ""⟩ (.cons ⟨rfl, trimmed_iff ""⟩
      (.cons ⟨rfl, trimmed_iff ""⟩ .nil)))
  | azureServiceBus =>
    dsimp only [toSubmission, azureServiceBusSubmission, toAzureServiceBusDraft,
      FormDraft.submission, ConnectionView.option]
    exact spelledOut_iff (by simp)
      (.cons ⟨rfl, @named_iff _ _ "RootManageSharedAccessKey" (by decide)⟩
      (.cons ⟨rfl, trimmed_iff ""⟩ (.cons ⟨rfl, trimmed_iff ""⟩ .nil)))
  | ibmmq =>
    dsimp only [toSubmission, ibmMqSubmission, toIbmMqDraft, FormDraft.submission,
      ConnectionView.option]
    exact spelledOut_iff (by simp) (.cons ⟨rfl, trimmed_iff ""⟩ (.cons ⟨rfl, switch_iff⟩ .nil))
  | solace =>
    dsimp only [toSubmission, solaceSubmission, toSolaceDraft, FormDraft.submission,
      ConnectionView.option]
    exact spelledOut_iff (by simp) (.cons ⟨rfl, trimmed_iff ""⟩ (.cons ⟨rfl, trimmed_iff ""⟩
      (.cons ⟨rfl, switch_iff⟩ .nil)))

end Families

/-! ## Mechanisms and secrets -/

/-- Whether a family has a form of its own. -/
def hasForm : MQKind → Bool
  | .unset | .other _ _ => false
  | _ => true

/-- Whether its form has addresses. -/
def hasAddress : MQKind → Bool
  | .sqs | .kinesis | .googlePubSub => false
  | _ => true

/-- The mechanisms that a family's form reads and writes back, of whether secrets are stored. -/
def formMechanisms : MQKind → Bool → List AuthMechanism
  | .rabbitmq, _ => [.plain]
  | .kafka, _ => [.none, .saslPlain, .saslScram]
  | .redisStream, stored => [if stored then .plain else .none]
  | .mqtt, _ | .activemq, _ | .ibmmq, _ | .solace, _ => [.none, .plain]
  | .nats, _ => [.none, .plain, .token, .nkey, .creds, .mutualTLS]
  | .pulsar, _ => [.none, .token]
  | .nsq, _ => [.none]
  | .sqs, stored | .kinesis, stored | .googlePubSub, stored | .azureServiceBus, stored =>
    if stored then [.none, .plain] else [.none]
  | .rocketmq, stored | .unset, stored | .other _ _, stored => [if stored then .acl else .none]

/-- Whether a family's form asks for the stored secrets to be kept, where there are any. -/
def keepsSecrets : MQKind → AuthMechanism → Bool
  | .nsq, _ => false
  | .kafka, mechanism => mechanism = .saslPlain || mechanism = .saslScram
  | .pulsar, mechanism => mechanism = .token
  | .sqs, mechanism | .kinesis, mechanism | .googlePubSub, mechanism
  | .azureServiceBus, mechanism => mechanism = .plain
  | _, _ => true

section Reopened

variable {ν : Type} (js : Numbers ν) (v : ConnectionView)

/-- **The fields every form has** come back as they are, the name trimmed. -/
theorem fields_reopened :
    let draft := (toSubmission js (toDraft js v)).draft
    draft.name = trim v.name ∧ draft.group = v.group ∧ draft.remark = v.remark ∧
      draft.timeoutSec = v.timeoutSec ∧
      draft.kind = (if hasForm v.kind then v.kind else .rocketmq) ∧
      draft.endpoints = (if hasAddress v.kind then trim v.endpoints else "") := by
  unfold toDraft
  cases v.kind <;> exact ⟨rfl, rfl, rfl, rfl, rfl, rfl⟩

/-- An object of blanks has nothing to say. -/
theorem getD_record_of_blank {entries : List (String × String)}
    (h : ∀ entry ∈ entries, entry.2 = "") (key : String) : ((record entries)[key]?).getD "" = "" := by
  cases hvalue : (record entries)[key]? with
  | none => rfl
  | some value => exact h _ (mem_of_getElem?_record hvalue)

@[simp] theorem typedWhen_empty (used : Bool) : typedWhen used "" = "" := by
  cases used <;> rfl

/-- **No secret is filled in.** -/
theorem secrets_reopened (key : String) :
    ((toSubmission js (toDraft js v)).draft.secrets[key]?).getD "" = "" := by
  unfold toDraft
  cases v.kind <;>
    exact getD_record_of_blank (by simp [toRocketMQDraft, toRabbitMQDraft, toKafkaDraft,
      toPulsarDraft, toRedisDraft, toMqttDraft, toNatsDraft, toActiveMQDraft, toSqsDraft,
      toKinesisDraft, AwsDraft.read, toGooglePubSubDraft, toAzureServiceBusDraft, toIbmMqDraft,
      toSolaceDraft, trim_empty]) key

theorem plainMechanism_stored (mechanism : AuthMechanism) :
    (PlainMechanism.unlessNone mechanism).stored = mechanism ↔
      mechanism = .none ∨ mechanism = .plain := by
  by_cases hnone : mechanism = .none
  · simp [PlainMechanism.unlessNone, PlainMechanism.stored, hnone]
  · simp [PlainMechanism.unlessNone, PlainMechanism.stored, hnone, eq_comm]

/-- One of two mechanisms comes back where it is the one that is chosen. -/
theorem chosen_iff {c : Prop} [Decidable c] {on off mechanism : AuthMechanism} :
    (if c then on else off) = mechanism ↔ mechanism ∈ [if c then on else off] := by
  rw [List.mem_singleton]
  exact eq_comm

/-- A mechanism that is written of two, where the other is what is stored of everything else. -/
theorem written_iff {c : Prop} [Decidable c] {on mechanism : AuthMechanism}
    (hon : c → mechanism = on) (hoff : ¬ c → mechanism ≠ on) :
    (if c then on else .none) = mechanism ↔ mechanism ∈ [AuthMechanism.none, on] := by
  by_cases h : c
  · simp [h, hon h]
  · have hother := hoff h
    simp [h, hother]
    exact eq_comm

/-- A hosted family signs with what is stored, or leaves it to the machine. -/
theorem signed_iff :
    (if v.storedPlain then AuthMechanism.plain else .none) = v.authMechanism ↔
      v.authMechanism ∈ if v.stored then [AuthMechanism.none, .plain] else [.none] := by
  cases hstored : v.stored with
  | true =>
    rw [if_pos rfl]
    exact written_iff (fun h => by simpa [ConnectionView.storedPlain, hstored] using h)
      fun h => by simpa [ConnectionView.storedPlain, hstored] using h
  | false =>
    have hnone : v.storedPlain = false := by simp [ConnectionView.storedPlain, hstored]
    rw [hnone, if_neg Bool.false_ne_true, if_neg Bool.false_ne_true, List.mem_singleton]
    exact eq_comm

/-- **The mechanism comes back** where the form can make it of what is stored. -/
theorem mechanism_reopened :
    (toSubmission js (toDraft js v)).draft.authMechanism = v.authMechanism ↔
      v.authMechanism ∈ formMechanisms v.kind v.stored := by
  unfold toDraft
  cases v.kind with
  | rocketmq | unset | other name unlisted =>
    have hwritten : (rocketMQSubmission (toRocketMQDraft v)).draft.authMechanism =
        if v.stored then .acl else .none := by
      simp [rocketMQSubmission, toRocketMQDraft, FormDraft.submission, SecretDraft.keepStored,
        SecretDraft.read, trim_empty]
    rw [toSubmission, hwritten]
    exact chosen_iff
  | rabbitmq =>
    show AuthMechanism.plain = v.authMechanism ↔ _
    exact eq_comm.trans List.mem_singleton.symm
  | kafka =>
    show (KafkaMechanism.byStored v.authMechanism).stored = v.authMechanism ↔ _
    cases v.authMechanism <;> simp [KafkaMechanism.byStored, KafkaMechanism.stored, formMechanisms]
  | redisStream =>
    have hwritten : (redisSubmission js (toRedisDraft js v)).draft.authMechanism =
        if v.stored then .plain else .none := by
      simp [redisSubmission, toRedisDraft, FormDraft.submission, SecretDraft.keepStored,
        SecretDraft.read, trim_empty]
    rw [toSubmission, hwritten]
    exact chosen_iff
  | mqtt =>
    have hwritten : (mqttSubmission js (toMqttDraft js v)).draft.authMechanism =
        if v.authMechanism = .plain then .plain else .none := by
      simp [mqttSubmission, toMqttDraft, FormDraft.submission]
    rw [toSubmission, hwritten]
    exact written_iff id id
  | nats =>
    show (NatsMechanism.byStored v.authMechanism).stored = v.authMechanism ↔ _
    cases v.authMechanism <;> simp [NatsMechanism.byStored, NatsMechanism.stored, formMechanisms]
  | pulsar =>
    have hwritten : (pulsarSubmission (toPulsarDraft v)).draft.authMechanism =
        if v.authMechanism = .token then .token else .none := by
      simp [pulsarSubmission, toPulsarDraft, FormDraft.submission]
    rw [toSubmission, hwritten]
    exact written_iff id id
  | activemq | ibmmq | solace =>
    show (PlainMechanism.unlessNone v.authMechanism).stored = v.authMechanism ↔ _
    rw [plainMechanism_stored]
    simp [formMechanisms]
  | nsq =>
    show AuthMechanism.none = v.authMechanism ↔ _
    exact eq_comm.trans List.mem_singleton.symm
  | sqs =>
    have hwritten : (sqsSubmission (toSqsDraft v)).draft.authMechanism =
        if v.storedPlain then .plain else .none := by
      simp [sqsSubmission, toSqsDraft, AwsDraft.submit, AwsDraft.read, FormDraft.submission,
        SecretDraft.keepStored, SecretDraft.read, trim_empty]
    rw [toSubmission, hwritten]
    exact signed_iff v
  | kinesis =>
    have hwritten : (kinesisSubmission (toKinesisDraft v)).draft.authMechanism =
        if v.storedPlain then .plain else .none := by
      simp [kinesisSubmission, toKinesisDraft, AwsDraft.submit, AwsDraft.read,
        FormDraft.submission, SecretDraft.keepStored, SecretDraft.read, trim_empty]
    rw [toSubmission, hwritten]
    exact signed_iff v
  | googlePubSub =>
    have hwritten : (googlePubSubSubmission (toGooglePubSubDraft v)).draft.authMechanism =
        if v.storedPlain then .plain else .none := by
      simp [googlePubSubSubmission, toGooglePubSubDraft, FormDraft.submission,
        SecretDraft.keepStored, SecretDraft.read, trim_empty]
    rw [toSubmission, hwritten]
    exact signed_iff v
  | azureServiceBus =>
    have hwritten : (azureServiceBusSubmission (toAzureServiceBusDraft v)).draft.authMechanism =
        if v.storedPlain then .plain else .none := by
      simp [azureServiceBusSubmission, toAzureServiceBusDraft, FormDraft.submission,
        SecretDraft.keepStored, SecretDraft.read, trim_empty]
    rw [toSubmission, hwritten]
    exact signed_iff v

theorem preserving_read (stored : Bool) :
    (SecretDraft.read v stored).preserving = if stored then .preserve else .replace := by
  cases stored <;> rfl

theorem replacing_read (stored : Bool) :
    (SecretDraft.read v stored).replacing false = if stored then .preserve else .replace := by
  cases stored <;> rfl

theorem replacingOrAnonymous_read (used stored : Bool) :
    (SecretDraft.read v (used && stored)).replacingOrAnonymous used false = .preserve ↔
      stored = true ∧ used = true := by
  cases used <;> cases stored <;>
    simp [SecretDraft.replacingOrAnonymous, SecretDraft.replacing, SecretDraft.keepStored,
      SecretDraft.read]

theorem rabbitMQ_mode :
    (rabbitMQSubmission (toRabbitMQDraft v)).credentialsMode =
      (SecretDraft.read v v.stored).replacing false := by
  simp [rabbitMQSubmission, toRabbitMQDraft, FormDraft.submission, trim_empty]

theorem redis_mode :
    (redisSubmission js (toRedisDraft js v)).credentialsMode =
      (SecretDraft.read v v.stored).replacing false := by
  simp [redisSubmission, toRedisDraft, FormDraft.submission, trim_empty]

theorem kafka_mode :
    (kafkaSubmission (toKafkaDraft v)).credentialsMode =
      (SecretDraft.read v (decide (KafkaMechanism.byStored v.authMechanism ≠ .none) &&
        v.stored)).replacingOrAnonymous
          (decide (KafkaMechanism.byStored v.authMechanism ≠ .none)) false := by
  simp [kafkaSubmission, toKafkaDraft, FormDraft.submission]

theorem pulsar_mode :
    (pulsarSubmission (toPulsarDraft v)).credentialsMode =
      (SecretDraft.read v (decide (v.authMechanism = .token) && v.stored)).replacingOrAnonymous
        (decide (v.authMechanism = .token)) false := by
  simp [pulsarSubmission, toPulsarDraft, FormDraft.submission]

/-- Only what signs in as nobody clears. -/
theorem replacingOrAnonymous_clear {used stored : Bool}
    (h : (SecretDraft.read v (used && stored)).replacingOrAnonymous used false = .clear) :
    used = false := by
  cases used with
  | false => rfl
  | true =>
    cases stored <;>
      simp [SecretDraft.replacingOrAnonymous, SecretDraft.replacing, SecretDraft.keepStored,
        SecretDraft.read] at h

/-- **A form that was left as it is clears** where it signs in as nobody. -/
theorem clear_reopened (h : (toSubmission js (toDraft js v)).credentialsMode = .clear) :
    (toSubmission js (toDraft js v)).draft.authMechanism = .none := by
  have hpreserving : ∀ stored, (SecretDraft.read v stored).preserving ≠ .clear := by
    intro stored
    cases stored <;> simp [preserving_read]
  have hreplacing : (SecretDraft.read v v.stored).replacing false ≠ .clear := by
    cases v.stored <;> simp [replacing_read]
  unfold toDraft at h ⊢
  cases hkind : v.kind with
  | rocketmq | unset | other name unlisted | mqtt | nats | activemq | ibmmq | solace | sqs | kinesis
  | googlePubSub | azureServiceBus =>
    rw [hkind] at h
    exact absurd h (hpreserving _)
  | rabbitmq =>
    rw [hkind] at h
    exact absurd ((rabbitMQ_mode v).symm.trans h) hreplacing
  | redisStream =>
    rw [hkind] at h
    exact absurd ((redis_mode js v).symm.trans h) hreplacing
  | nsq => rfl
  | kafka =>
    rw [hkind] at h
    dsimp only at h ⊢
    rw [toSubmission, kafka_mode] at h
    have hnobody : KafkaMechanism.byStored v.authMechanism = .none := by
      simpa using replacingOrAnonymous_clear v h
    show (KafkaMechanism.byStored v.authMechanism).stored = .none
    rw [hnobody]
    rfl
  | pulsar =>
    rw [hkind] at h
    dsimp only at h ⊢
    rw [toSubmission, pulsar_mode] at h
    have hnobody : v.authMechanism ≠ .token := by
      simpa using replacingOrAnonymous_clear v h
    simp [toSubmission, pulsarSubmission, toPulsarDraft, FormDraft.submission, hnobody]

/-- **The mode** keeps what is stored where there is any and the family's form asks for it. -/
theorem credentialsMode_reopened :
    (toSubmission js (toDraft js v)).credentialsMode = .preserve ↔
      v.stored = true ∧ keepsSecrets v.kind v.authMechanism = true := by
  unfold toDraft
  cases v.kind with
  | rocketmq | unset | other name unlisted | mqtt | nats | activemq | ibmmq | solace =>
    show (SecretDraft.read v v.stored).preserving = .preserve ↔ _
    cases v.stored <;> simp [preserving_read, keepsSecrets]
  | rabbitmq =>
    rw [toSubmission, rabbitMQ_mode]
    cases v.stored <;> simp [replacing_read, keepsSecrets]
  | redisStream =>
    rw [toSubmission, redis_mode]
    cases v.stored <;> simp [replacing_read, keepsSecrets]
  | kafka =>
    rw [toSubmission, kafka_mode, replacingOrAnonymous_read]
    cases v.authMechanism <;> simp [KafkaMechanism.byStored, keepsSecrets]
  | pulsar =>
    rw [toSubmission, pulsar_mode, replacingOrAnonymous_read]
    rfl
  | nsq => simp [toSubmission, nsqSubmission, FormDraft.submission, keepsSecrets]
  | sqs | kinesis | googlePubSub | azureServiceBus =>
    show (SecretDraft.read v v.storedPlain).preserving = .preserve ↔ _
    by_cases hplain : v.authMechanism = .plain <;>
      cases hstored : v.stored <;>
        simp [preserving_read, keepsSecrets, ConnectionView.storedPlain, hplain, hstored]

end Reopened

end MqStudio.Connection.Forms
