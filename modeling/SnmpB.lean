import SnmpB.Discovery.Coverage
import SnmpB.Mib.BestModule
import SnmpB.Agent.Seeds
import SnmpB.Agent.Alone
import SnmpB.Selection.Value
import SnmpB.Selection.Name
import SnmpB.Mib.Populate
import SnmpB.Editor.Document
import SnmpB.Discovery.Failure
import SnmpB.Discovery.Abort
import SnmpB.Discovery.Record
import SnmpB.Agent.StopAction
import SnmpB.Profile.Usm
import SnmpB.Mib.Registry
import SnmpB.Profile.Creation
import SnmpB.Selection.Reload
import SnmpB.Profile.Names
import SnmpB.Profile.UsmForm
import SnmpB.Settings.Restart
import SnmpB.Graphs.Stored
import SnmpB.Graphs.Rows
import SnmpB.Editor.Reported
import SnmpB.Editor.Replace
import SnmpB.Agent.ErrorStatus
import SnmpB.Agent.Numbering
import SnmpB.Agent.TableRows
import SnmpB.Agent.Escaping
import SnmpB.Agent.Printable
import SnmpB.Agent.Inform
import SnmpB.Discovery.Targets
import SnmpB.Discovery.Progress
import SnmpB.Discovery.AgentFields
import SnmpB.Mib.Wanted
import SnmpB.Mib.Select
import SnmpB.Selection.Varbinds
import SnmpB.Selection.Numerals
import SnmpB.Profile.Stored
import SnmpB.Profile.Current
import SnmpB.Profile.Views
import SnmpB.Profile.Selecting
import SnmpB.Oid.Instance
import SnmpB.Selection.VarbindsList
import SnmpB.Mib.Find
import SnmpB.Profile.Preference
import SnmpB.Transport.Waiting
import SnmpB.Transport.Punctual
import SnmpB.Ber.InformReply
import SnmpB.Library.Feedback
import SnmpB.Library.Watermark
import SnmpB.Usm.Authentication
import SnmpB.Usm.KeyCache
import SnmpB.Usm.TimeTable
import SnmpB.Usm.Window
import SnmpB.Usm.SecurityParameters
