import Lorentz.AbpFlag
import Lorentz.Archives
import Lorentz.ClientLookup
import Lorentz.CredentialChange
import Lorentz.DatabaseUri
import Lorentz.DnsmasqLines
import Lorentz.Duplicates
import Lorentz.ExportedRows
import Lorentz.Flush
import Lorentz.HostNames
import Lorentz.ImportFrame
import Lorentz.ImportedStore
import Lorentz.ItemGroups
import Lorentz.ListFiles
import Lorentz.LostUpdates
import Lorentz.OldCredentials
import Lorentz.OverTimeWindow
import Lorentz.PathCheck
import Lorentz.Persistence
import Lorentz.Precedence
import Lorentz.PtrLookup
import Lorentz.QueryLog
import Lorentz.RateLimit
import Lorentz.ReadOnlyItems
import Lorentz.RegexOptions
import Lorentz.RowIds
import Lorentz.SecondFactor
import Lorentz.SqlFormat
import Lorentz.TomlValues
import Lorentz.ViewerRights
