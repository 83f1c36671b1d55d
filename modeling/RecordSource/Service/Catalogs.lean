import RecordSource.Field.Catalog

/-!
The logical fields of each record domain and what the backend calls them.
-/
namespace RecordSource.Service.Catalogs
open RecordSource.Field

/-- The severity from which on an alarm is critical. -/
def criticalSeverity : String := "4"

def alarms : Catalog :=
  let c : Catalog := {}
  let c := c.insertAll ["alarmId", "channel", "condition", "createdBy", "currentSeverityLevel",
    "highestSeverityLevel", "description", "displayName", "resourceType", "workspace"] .plain
  let c := c.insertAll ["occurredAt", "updatedAt", "acknowledgedAt", "mostRecentSetOccurredAt",
    "mostRecentTransitionOccurredAt"] .time
  let c := c.insertAll ["acknowledged", "active", "clear"] .flag
  let c := c.insert "keywords" (.list "keywords")
  let c := c.insert "properties" (.bag "properties")
  let c := c.insert "source" (.spread ["properties[\"system\"]", "properties[\"minionId\"]"])
  let c := c.insert "instanceId" .verbatim
  let c := c.addThreshold "currentSeverityLevel" criticalSeverity
  c.addThreshold "highestSeverityLevel" criticalSeverity

def results : Catalog :=
  let c : Catalog := {}
  let c := c.insertAll ["programName", "operator", "serialNumber", "partNumber", "hostName", "systemId",
    "workspace"] .plain
  let c := c.insertAll ["startedAt", "updatedAt"] .time
  let c := c.insert "status" (.plain "status.statusType")
  let c := c.insertAll ["keywords", "fileIds", "dataTableIds"] .list
  let c := c.insert "properties" (.bag "properties")
  c.insertAll ["id", "totalTimeInSeconds"] fun _ => .verbatim

def steps : Catalog :=
  let c : Catalog := {}
  let c := c.insertAll ["name", "stepType", "stepId", "parentId", "resultId", "path", "workspace"] .plain
  let c := c.insertAll ["startedAt", "updatedAt"] .time
  let c := c.insert "status" (.plain "status.statusType")
  let c := c.insert "keywords" (.list "keywords")
  let c := c.insert "properties" (.bag "properties")
  let c := c.insert "programName" (.plain "result.programName")
  let c := c.insert "partNumber" (.plain "result.partNumber")
  c.insert "totalTimeInSeconds" .verbatim

def systems : Catalog :=
  let c : Catalog := {}
  let c := c.insertAll ["id", "alias", "workspace"] .plain
  let c := c.insert "connectionStatus" (.plain "connected.data.state")
  let c := c.insert "locked" (.flag "grains.data.minion_blackout")
  let c := c.insert "osFullName" (.plain "grains.data.osfullname")
  let c := c.insert "model" (.plain "grains.data.productname")
  let c := c.insert "vendor" (.plain "grains.data.manufacturer")
  let c := c.insert "keywords" (.list "keywords.data")
  let c := c.insert "properties" (.bag "properties.data")
  c.insert "lastUpdated" (.time "connected.lastUpdatedTimestamp")

/-- What work orders and test plans have in common. -/
def workItems : Catalog :=
  let c : Catalog := {}
  let c := c.insertAll ["id", "name", "state", "type", "description", "assignedTo", "requestedBy", "createdBy",
    "updatedBy", "workspace"] .plain
  let c := c.insertAll ["createdAt", "updatedAt"] .time
  c.insert "properties" (.bag "properties")

def workOrders : Catalog := workItems.insertAll ["earliestStartDate", "dueDate"] .time

def testPlans : Catalog :=
  let c := workItems.insertAll ["partNumber", "systemId", "workOrderId", "dutId"] .plain
  let c := c.insert "fixtureIds" (.list "fixtureIds")
  c.insertAll ["plannedStartDateTime", "estimatedEndDateTime"] .time

end RecordSource.Service.Catalogs
